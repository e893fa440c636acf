import PermanuAgent.AppCleanup
import PermanuAgent.ResultSteps

/-!
# HTTP probes

`parse_request` checks host and port of the URL, and `http_probe` copies its path
into the request it writes. What is written is one request exactly if no byte of
the path ends the target or the line early.
-/

set_option autoImplicit false

namespace Permanu.HttpProbe

open ByteText ResultSteps List
open AppCleanup (rsplitOnce)

inductive IpAddr where
  | v4 (a b c d : UInt8)
  | v6 (bits : BitVec 128)

def IpAddr.isLoopback : IpAddr → Bool
  | .v4 a _ _ _ => a == 127
  | .v6 bits => bits == 1

def isPrivateIp : IpAddr → Bool
  | .v4 a b _ _ => a == 10 || (a == 172 && 16 ≤ b && b ≤ 31) || (a == 192 && b == 168)
  | .v6 bits => bits >>> 121 == 0x7e

structure Payload where
  method : Option Str
  url : Option Str
  others : Except Str Unit

structure Texts where
  parseIp : Str → Option IpAddr
  quoted : Str → Str

section
variable (t : Texts)

def validateMethod (method : Option Str) : Except Str Str := do
  let method := method.getD (str "GET")
  ensure (method == str "GET" || method == str "HEAD")
    (str "method " ++ t.quoted method ++ str " not in allowlist")
  pure method

def normalizeHost (host : Str) : Str :=
  (((trim host).dropWhile (oneOf "[]")).reverse.dropWhile (oneOf "[]")).reverse

def parseU16 (text : Str) : Option ℕ :=
  let digits := (text.dropPrefix? (str "+")).getD text
  if digits ≠ [] && digits.all isDigit && parseDecimal digits < 2^16 then some (parseDecimal digits)
  else none

/-- Whether the scheme is `https`, and the text behind it. -/
def urlScheme (url : Str) : Except Str (Bool × Str) :=
  match url.dropPrefix? (str "http://"), url.dropPrefix? (str "https://") with
  | some rest, _ => .ok (false,rest)
  | none, some rest => .ok (true,rest)
  | none, none => .error (str "url scheme must be http or https")

def authorityPath (rest : Str) : Str × Str :=
  match splitOnce '/' rest with
  | some (authority,path) => (authority,byte '/' :: path)
  | none => (rest,str "/")

def hostPort (https : Bool) (authority : Str) : Except Str (Str × ℕ) :=
  match rsplitOnce (byte ':') authority with
  | some (host,port) => (okOr (parseU16 port) (str "invalid port")).map fun port => (host,port)
  | none => .ok (authority,if https then 443 else 80)

def parseHttpUrl (url : Str) : Except Str (Str × ℕ × Str) := do
  let scheme ← urlScheme url
  let address ← hostPort scheme.1 (authorityPath scheme.2).1
  pure (normalizeHost address.1,address.2,(authorityPath scheme.2).2)

def resolveSafeIp (host : Str) : Except Str IpAddr := do
  if host = str "localhost" then return .v4 127 0 0 1
  let ip ← okOr (t.parseIp host)
    (str "host " ++ t.quoted host ++ str " must be an IP or localhost")
  ensure (ip.isLoopback || isPrivateIp ip)
    (str "host " ++ t.quoted host ++ str " is not allowlisted")
  return ip

def validateSafeHost (host : Str) : Except Str IpAddr := do
  let ip ← resolveSafeIp t host
  ensure (ip.isLoopback || isPrivateIp ip)
    (str "host " ++ t.quoted host ++ str " is not allowlisted")
  pure ip

def probePorts : List ℕ := [80, 443, 8080, 8443, 9000, 9090]

def validateProbeUrl (url : Str) : Except Str IpAddr := do
  let parts ← parseHttpUrl url
  let ip ← validateSafeHost t parts.1
  ensure (probePorts.contains parts.2.1)
    (str "port " ++ decimal parts.2.1 ++ str " not in allowlist")
  pure ip

def parseRequest (p : Payload) : Except Str (Str × Str × IpAddr) := do
  let method ← validateMethod t p.method
  let url ← okOr p.url (str "url is required")
  let ip ← validateProbeUrl t url
  p.others
  pure (method,url,ip)

def requestText (method host path : Str) : Str :=
  method ++ byte ' ' :: (path ++ str " HTTP/1.1\r\nHost: " ++ host ++
    str "\r\nConnection: close\r\n\r\n")

structure Probe where
  ip : IpAddr
  port : ℕ
  host : Str
  path : Str
  written : Str

/-- The probe of an `http` URL; `curl` makes the others. -/
def httpProbe (p : Payload) : Option Probe :=
  match parseRequest t p with
  | .error _ => none
  | .ok (method,url,ip) =>
    if startsWith url "https://" then none
    else (parseHttpUrl url).toOption.map fun parts =>
      ⟨ip,parts.2.1,parts.1,parts.2.2,requestText method parts.1 parts.2.2⟩
end

def isVisible (b : UInt8) : Bool := 32 < b && b ≠ 127

def isFramed (front back line : Str) : Bool :=
  (line.dropPrefix? front).any fun rest =>
    back.isSuffixOf rest && (rest.take (rest.length - back.length)).all isVisible

def isRequestLine (line : Str) : Bool :=
  isFramed (str "GET /") (str " HTTP/1.1\r") line ||
    isFramed (str "HEAD /") (str " HTTP/1.1\r") line

def isOneRequest (text : Str) : Bool :=
  match text.splitOn (byte '\n') with
  | [line, host, connection, empty, []] =>
    isRequestLine line && isFramed (str "Host: ") (str "\r") host &&
      connection == str "Connection: close\r" && empty == str "\r"
  | _ => false

def Probe.isHarmless (probe : Probe) : Bool :=
  (probe.ip.isLoopback || isPrivateIp probe.ip) && probePorts.contains probe.port &&
    isOneRequest probe.written

theorem all_visible_false {s : Str} {b : UInt8} (hb : isVisible b = false) (h : b ∈ s) :
    s.all isVisible = false :=
  all_eq_false.mpr ⟨b,h,by simp [hb]⟩

theorem isFramed_text {back text : Str} (front : Str) :
    isFramed front back (front ++ (text ++ back)) = text.all isVisible := by
  have hrest : (front ++ (text ++ back)).dropPrefix? front = some (text ++ back) :=
    dropPrefix?_eq_some_iff.mpr ⟨front,rfl,beq_self_eq_true front⟩
  have hback : back.isSuffixOf (text ++ back) = true :=
    isSuffixOf_iff_suffix.mpr (suffix_append text back)
  simp [isFramed, hrest, hback]

theorem isRequestLine_text {method : Str} {path : Str}
    (hm : method = str "GET" ∨ method = str "HEAD") :
    isRequestLine (method ++ byte ' ' :: (byte '/' :: path ++ str " HTTP/1.1\r")) =
      path.all isVisible := by
  rcases hm with rfl | rfl
  · exact (Bool.or_false _).trans (isFramed_text (str "GET /"))
  · exact isFramed_text (str "HEAD /")

/-- The text is one request exactly if path and host are made of visible bytes. -/
theorem isOneRequest_text {method host path : Str} (hm : method = str "GET" ∨ method = str "HEAD") :
    isOneRequest (requestText method host (byte '/' :: path)) =
      (path.all isVisible && host.all isVisible) := by
  have htext : requestText method host (byte '/' :: path) =
      (method ++ byte ' ' :: (byte '/' :: path ++ str " HTTP/1.1\r")) ++ byte '\n' ::
        ((str "Host: " ++ (host ++ str "\r")) ++ byte '\n' ::
          (str "Connection: close\r" ++ byte '\n' :: (str "\r" ++ byte '\n' :: []))) := by
    have hfirst : str " HTTP/1.1\r\nHost: " =
      str " HTTP/1.1\r" ++ byte '\n' :: str "Host: " := rfl
    have hsecond : str "\r\nConnection: close\r\n\r\n" = str "\r" ++ byte '\n' ::
      (str "Connection: close\r" ++ byte '\n' :: (str "\r" ++ byte '\n' :: [])) := rfl
    rw [requestText, hfirst, hsecond]
    simp
  unfold isOneRequest
  by_cases hline : byte '\n' ∈ path ∨ byte '\n' ∈ host
  · have hfalse : (path.all isVisible && host.all isVisible) = false := by
      rcases hline with h | h <;> simp [all_visible_false (by decide) h]
    have hlength := length_splitOn (byte '\n') (requestText method host (byte '/' :: path))
    have hcount : 0 < path.count (byte '\n') + host.count (byte '\n') := by
      rcases hline with h | h
      · exact Nat.add_pos_left (count_pos_iff.mpr h) _
      · exact Nat.add_pos_right _ (count_pos_iff.mpr h)
    rw [hfalse]
    split
    · next hfive =>
      rw [hfive, htext] at hlength
      simp only [count_append, count_cons_self, count_cons, length_cons, length_nil] at hlength
      omega
    · rfl
  · rw [not_or] at hline
    have hfirst : byte '\n' ∉ method ++ byte ' ' :: (byte '/' :: path ++ str " HTTP/1.1\r") := by
      have hmethod : byte '\n' ∉ method ++ str " /" := by rcases hm with rfl | rfl <;> decide
      have hversion : byte '\n' ∉ str " HTTP/1.1\r" := by decide
      show byte '\n' ∉ method ++ (str " /" ++ (path ++ str " HTTP/1.1\r"))
      rw [← append_assoc]
      exact not_mem_append hmethod (not_mem_append hline.1 hversion)
    have hsecond : byte '\n' ∉ str "Host: " ++ (host ++ str "\r") := by
      rw [mem_append, mem_append, not_or, not_or]
      exact ⟨by decide,hline.2,by decide⟩
    rw [htext, splitOn_piece hfirst, splitOn_piece hsecond, splitOn_piece (by decide),
      splitOn_piece (by decide)]
    show (isRequestLine _ && isFramed _ _ _ && _ && _) = _
    rw [isRequestLine_text hm, isFramed_text]
    simp

theorem httpProbe_parts {t : Texts} {p : Payload} {probe : Probe} (h : probe ∈ httpProbe t p) :
    (probe.ip.isLoopback || isPrivateIp probe.ip) = true ∧
    probePorts.contains probe.port = true ∧ ∃ method,
      (method = str "GET" ∨ method = str "HEAD") ∧ (∃ rest, probe.path = byte '/' :: rest) ∧
      probe.written = requestText method probe.host probe.path := by
  unfold httpProbe at h
  split at h
  · cases h
  · next method url ip hrequest =>
    split at h
    · cases h
    · obtain ⟨parts,hparts,rfl⟩ := Option.map_eq_some_iff.mp h
      have hurl : parseHttpUrl url = .ok parts := by
        cases hparse : parseHttpUrl url with
        | error e => rw [hparse] at hparts; cases hparts
        | ok found => rw [hparse] at hparts; cases hparts; rfl
      simp only [parseRequest, validateMethod, validateProbeUrl, validateSafeHost, bind_ok, okOr_ok,
        ensure_ok, pure_ok, Prod.mk.injEq, Bool.or_eq_true, beq_iff_eq] at hrequest
      obtain ⟨_,⟨_,hmethod,rfl⟩,_,_,_,⟨found,hfound,_,⟨_,_,_,hsafe,rfl⟩,_,hport,rfl⟩,_,_,rfl,
        rfl,rfl⟩ :=
        hrequest
      obtain rfl : found = parts := Except.ok.inj (hfound.symm.trans hurl)
      simp only [parseHttpUrl, bind_ok, pure_ok] at hurl
      obtain ⟨scheme,_,address,_,rfl⟩ := hurl
      refine ⟨by simpa using hsafe,hport,_,hmethod,?_,rfl⟩
      unfold authorityPath
      split <;> exact ⟨_,rfl⟩

/-- A probe is harmless exactly when its path, and the text of its host, hold neither blanks
nor control characters. -/
theorem probe_harmless_iff (t : Texts) (p : Payload) :
    (∀ probe ∈ httpProbe t p, probe.isHarmless = true) ↔
      ∀ probe ∈ httpProbe t p,
        probe.path.all isVisible = true ∧ probe.host.all isVisible = true := by
  apply forall₂_congr
  intro probe hprobe
  obtain ⟨hsafe,hport,method,hmethod,⟨rest,hpath⟩,hwritten⟩ := httpProbe_parts hprobe
  have hslash : isVisible (byte '/') = true := by decide
  rw [Probe.isHarmless, hsafe, hport, hwritten, hpath, isOneRequest_text hmethod]
  simp [hslash]

/-- The path of the URL ends the request and begins another. -/
theorem path_adds_request :
    (httpProbe ⟨fun _ => none,id⟩ ⟨none,some
        (str "http://localhost:9000/x HTTP/1.1\r\nHost: a\r\n\r\nDELETE /db"),.ok ()⟩).map
      (fun probe => (probe.isHarmless,probe.written)) =
    some (false,
      str "GET /x HTTP/1.1\r\nHost: a\r\n\r\n" ++
        str "DELETE /db HTTP/1.1\r\nHost: localhost\r\nConnection: close\r\n\r\n") := by
  decide +kernel

end Permanu.HttpProbe
