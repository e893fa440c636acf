import PermanuAgent.ByteText
import PermanuAgent.ResultSteps

/-!
# The content of a compose file

`validate_compose_content` looks for forbidden fields and host paths line by line. It
compares the trimmed line as it is written, so it sees host access in one spelling only.
-/

set_option autoImplicit false

namespace Permanu.ComposeContent

open ByteText List ResultSteps

def forbidden : List String :=
  ["build", "cap_add", "cap_drop", "cgroup_parent", "credential_spec", "device_cgroup_rules",
    "devices",
    "env_file", "extends", "ipc", "label_file", "network_mode", "pid", "privileged", "security_opt",
    "sysctls", "userns_mode"]

def opens (line : Str) (field : String) : Bool :=
  line == str field || startsWith line (field ++ " ")

def composeLineUsesHostPathVolume (line : Str) (allowRelativeFileMounts : Bool) : Bool :=
  ((line.dropPrefix? (str "- ")).bind (splitOnce ':')).any fun item =>
    startsWith item.1 "/" || startsWith item.1 "../" ||
      (startsWith item.1 "./" && !allowRelativeFileMounts)

def validateLine (allowRelativeFileMounts : Bool) (line : Str) : Except Str Unit := do
  forbidden.forM fun key =>
    ensure (!opens line (key ++ ":")) (str ("swarm stack field \"" ++ key ++ "\" is not allowed"))
  ensure (!(composeLineUsesHostPathVolume line allowRelativeFileMounts || opens line "type: bind"))
    (str "swarm stack volume uses a host path; use a named volume")

def lines (content : Str) : List Str := (content.splitOn 10).map trim

def validateComposeContent (content : Str) (allowRelativeFileMounts : Bool) : Except Str Unit := do
  ensure ((lines content).contains (str "services:")) (str "swarm stack yaml must declare services")
  (lines content).forM (validateLine allowRelativeFileMounts)

def validateComposeUpContent (content : Str) : Except Str Unit :=
  validateComposeContent content true

/-- A line without its list markers. -/
def unmark : Str → Str
  | [] => []
  | b :: rest =>
    if b = byte ' ' || (b == byte '-' && rest.head? == some (byte ' ')) then unmark rest
    else b :: rest

def isQuote (b : UInt8) : Bool := oneOf "\"'" b

/-- A line without the quotes of its first scalar. -/
def unquote : Str → Str
  | [] => []
  | b :: rest => if isQuote b then rest.eraseP (· == b) else b :: rest

/-- The line is a forbidden key followed by a colon, or a bind mount, in any spelling. -/
def isField (line : Str) : Bool :=
  unquote (unmark line) == str "type: bind" ||
    forbidden.any fun key => startsWith (unquote (unmark line)) (key ++ ":")

/-- The line is an item with a host path for its source, in any spelling. -/
def isMount (line : Str) : Bool :=
  startsWith line "- " && (splitOnce ':' (unmark line)).any fun item =>
    ["/", "./", "../", "~"].any (startsWith (item.1.dropWhile isQuote))

/-- Behind the first colon of the line comes a space or nothing. -/
def spaced (line : Str) : Bool :=
  (splitOnce ':' line).any fun field => field.2.head?.all (· == byte ' ')

/-- A field without marker and quotes, with a space behind its colon, and a mount with one
marker, unquoted and not of a home. -/
def Plain (line : Str) : Prop :=
  (isField line → unquote (unmark line) = line ∧ spaced line) ∧
    (isMount line → line.dropPrefix? (str "- ") = some (unmark line) ∧
      ¬ (unmark line).head?.any fun b => isQuote b || b == byte '~')

theorem forM_ok {ε α : Type} {f : α → Except ε Unit} {xs : List α} {u : Unit}
    (h : xs.forM f = .ok u) : ∀ x ∈ xs, f x = .ok () := by
  induction xs with
  | nil => simp
  | cons x rest ih =>
    obtain ⟨_,hx,hrest⟩ := bind_ok.mp h
    exact forall_mem_cons.mpr ⟨hx,ih hrest⟩

theorem validateLine_ok {allow : Bool} {line : Str} (h : validateLine allow line = .ok ()) :
    composeLineUsesHostPathVolume line allow = false ∧
      ∀ field ∈ "type: bind" :: forbidden.map (· ++ ":"), opens line field = false := by
  obtain ⟨_,hkeys,hpaths⟩ := bind_ok.mp h
  rw [ensure_ok, Bool.not_eq_true', Bool.or_eq_false_iff] at hpaths
  refine ⟨hpaths.1,forall_mem_cons.mpr ⟨hpaths.2,forall_mem_map.mpr fun key hkey => ?_⟩⟩
  simpa using forM_ok hkeys key hkey

theorem splitOnce_word {c : Char} {word rest : Str} (h : byte c ∉ word) :
    splitOnce c (word ++ byte c :: rest) = some (word,rest) := by
  induction word with
  | nil => simp [splitOnce]
  | cons b word ih =>
    rw [mem_cons, not_or] at h
    rw [cons_append, splitOnce, if_neg (Ne.symm h.1), ih h.2]
    rfl

theorem splitOnce_head {c : Char} {b : UInt8} {rest source tail : Str}
    (h : splitOnce c (b :: rest) = some (source,tail)) :
    source = [] ∨ ∃ more, source = b :: more := by
  rw [splitOnce] at h
  split_ifs at h
  · cases h
    exact .inl rfl
  · obtain ⟨⟨front,back⟩,-,hsource⟩ := Option.map_eq_some_iff.mp h
    cases hsource
    exact .inr ⟨front,rfl⟩

/-- A field that is written plainly is seen. -/
theorem field_seen {line : Str} (hfield : isField line) (hplain : Plain line) :
    ∃ field ∈ "type: bind" :: forbidden.map (· ++ ":"), opens line field = true := by
  obtain ⟨hline,hspaced⟩ := hplain.1 hfield
  rw [isField, hline, Bool.or_eq_true, beq_iff_eq, any_eq_true] at hfield
  rcases hfield with hbind | ⟨key,hkey,hstarts⟩
  · exact ⟨"type: bind",mem_cons_self,by simp [opens, hbind]⟩
  · have hcolon : ∀ key ∈ forbidden, byte ':' ∉ str key ∧ str (key ++ ":") = str key ++ [byte ':'] ∧
        str (key ++ ":" ++ " ") = str key ++ [byte ':', byte ' '] := by decide
    obtain ⟨hkeyed,htext,hblank⟩ := hcolon key hkey
    obtain ⟨rest,rfl⟩ := isPrefixOf_iff_prefix.mp hstarts
    rw [htext, append_assoc, singleton_append] at hspaced ⊢
    rw [spaced, splitOnce_word hkeyed, Option.any_some] at hspaced
    refine ⟨key ++ ":",mem_cons_of_mem _ (mem_map_of_mem hkey),?_⟩
    cases rest with
    | nil => simp [opens, htext]
    | cons b more =>
      obtain rfl : b = byte ' ' := by simpa using hspaced
      rw [opens, startsWith, hblank, Bool.or_eq_true]
      exact .inr <| isPrefixOf_iff_prefix.mpr ⟨more,by simp⟩

/-- A source that is neither quoted nor in a home is seen as it is written. -/
theorem mount_seen {line : Str} (hmount : isMount line) (hplain : Plain line) :
    composeLineUsesHostPathVolume line false := by
  obtain ⟨hitem,hhead⟩ := hplain.2 hmount
  obtain ⟨-,hmount⟩ := Bool.and_eq_true_iff.mp hmount
  rw [composeLineUsesHostPathVolume, hitem, Option.bind_some]
  obtain ⟨⟨source,tail⟩,hsplit,hreaches⟩ := (Option.any_eq_true _ _).mp hmount
  rw [hsplit]
  cases hunmarked : unmark line with
  | nil => simp [hunmarked, splitOnce] at hsplit
  | cons b rest =>
    rw [hunmarked] at hsplit hhead
    rcases splitOnce_head hsplit with rfl | ⟨more,rfl⟩
    · cases hreaches
    · have hb : isQuote b = false ∧ b ≠ byte '~' := by simpa using hhead
      have hhome : startsWith (b :: more) "~" = false :=
        Bool.and_eq_false_iff.mpr (.inl (beq_eq_false_iff_ne.mpr (Ne.symm hb.2)))
      rw [dropWhile_cons_of_neg (by simp [hb.1])] at hreaches
      simpa [hhome, or_assoc, or_comm, or_left_comm] using hreaches

/-- Accepted content gives no host access iff it gives none in another spelling. -/
theorem accepted_no_host_access_iff (content : Str)
    (h : validateComposeContent content false = .ok ()) :
    (∀ line ∈ lines content, isField line = false ∧ isMount line = false) ↔
      ∀ line ∈ lines content, Plain line := by
  obtain ⟨_,-,hlines⟩ := bind_ok.mp h
  refine forall₂_congr fun line hline => ?_
  obtain ⟨hpath,hfields⟩ := validateLine_ok (forM_ok hlines line hline)
  constructor
  · rintro ⟨hfield,hmount⟩
    simp [Plain, hfield, hmount]
  · intro hplain
    constructor
    · rw [← Bool.not_eq_true]
      intro hfield
      obtain ⟨field,hmem,hopens⟩ := field_seen hfield hplain
      cases (hfields field hmem).symm.trans hopens
    · rw [← Bool.not_eq_true]
      intro hmount
      cases hpath.symm.trans (mount_seen hmount hplain)

theorem named_volume_no_host_access :
    validateComposeContent (str "services:\n  - data:/data") false = .ok () ∧
      ∀ line ∈ lines (str "services:\n  - data:/data"), isField line = false ∧
        isMount line = false :=
  ⟨by decide,(accepted_no_host_access_iff _ (by decide)).mpr (by unfold Plain; decide)⟩

/-- A quoted field, one with a tab behind its colon and a quoted source are accepted. -/
theorem quoted_host_access_accepted :
    validateComposeContent
        (str "services:\n  \"privileged\": true\n  pid:\thost\n  - \"/etc:/etc\"") false = .ok () ∧
      isField (str "\"privileged\": true") ∧ isField (str "pid:\thost") ∧
      isMount (str "- \"/etc:/etc\"") :=
  ⟨by decide,by decide,by decide,by decide⟩

end Permanu.ComposeContent
