import PermanuAgent.AdmissionStore

/-!
# The deliveries of the webhook

The webhook's rows of the store: verified and rejected deliveries, and the
images the runner built for them.
-/

set_option autoImplicit false

namespace Permanu.AdmissionWebhooks
open ByteText PlanText TableRows AdmissionStore

def deliveryRetentionSeconds : ℤ := 30 * 86400
def rejectedRetentionSeconds : ℤ := 7 * 86400
def maxRejectedRows : ℕ := 100000
def providers : List String := ["github", "gitlab", "gitea"]

def insertDelivery (row : DeliveryRow) (store : Store) : Store × Bool :=
  if providers.any fun p => row.provider == str p then
    match insertNew (fun r : DeliveryRow => r.deliveryId == row.deliveryId
        || r.bodyDigestHex == row.bodyDigestHex) row store.deliveries with
    | some deliveries => ({ store with deliveries := deliveries }, true)
    | none => (store, false)
  else (store, false)

def setDeliveryStatus (deliveryId : Str) (status : DeliveryStatus) (store : Store) : Store :=
  let moved := updateWhere (fun r => r.deliveryId == deliveryId)
    (fun r => { r with status := status }) store.deliveries
  { store with deliveries := moved }

def claimDelivery (deliveryId : Str) (status : DeliveryStatus) (store : Store) : Store × Bool :=
  let open' := fun r : DeliveryRow => r.deliveryId == deliveryId && r.status == .pending
  let moved := updateWhere open' (fun r => { r with status := status }) store.deliveries
  ({ store with deliveries := moved }, store.deliveries.any open')

def insertRejectedDelivery (row : RejectedRow) (store : Store) : Store :=
  if store.rejected.length < maxRejectedRows then
    { store with rejected := store.rejected ++ [row] }
  else store

def cited (store : Store) (deliveryId : Str) : Bool :=
  store.consumptions.any (fun r => r.deliveryId == deliveryId)
    || store.builds.any (fun r => r.deliveryId == deliveryId)
    || store.admissions.any fun r => r.deliveryId == some deliveryId

def expireDeliveries (now : ℤ) (store : Store) : Store × List Str :=
  let due := fun r : DeliveryRow => r.status == .pending && leText r.expiresAt (formatTimestamp now)
  let expired := updateWhere due (fun r => { r with status := .expired }) store.deliveries
  ({ store with
      rejected := deleteWhere
        (fun r => leText r.receivedAt (formatTimestamp (now - rejectedRetentionSeconds)))
        store.rejected
      deliveries := deleteWhere (fun r => leText r.receivedAt
        (formatTimestamp (now - deliveryRetentionSeconds)) && !cited store r.deliveryId) expired },
    (store.deliveries.filter due).map DeliveryRow.deliveryId)

def sameBuild (row r : BuildRow) : Bool :=
  r.serviceId == row.serviceId && r.commitSha == row.commitSha

/-- The image of a service and a commit, in the place of an earlier one. An unknown
delivery, or a build id of another service or commit, is refused. -/
def recordBuild (row : BuildRow) (store : Store) : Store :=
  if !(store.deliveries.any fun d => d.deliveryId == row.deliveryId)
      || store.builds.any fun r => r.buildId == row.buildId && !sameBuild row r then store
  else if store.builds.any (sameBuild row) then
    { store with builds := updateWhere (sameBuild row) (fun _ => row) store.builds }
  else { store with builds := store.builds ++ [row] }

end Permanu.AdmissionWebhooks
