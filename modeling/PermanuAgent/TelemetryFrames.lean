import PermanuAgent.TelemetryCursors

/-!
# The bytes of a segment

A data file is the frames of a segment one after the other, each behind its length, and an
index file is its entries of a fixed width. The parser stops at the first frame that is torn
or whose length cannot be one. What a segment keeps as lists is what its files hold: the
parser gives the frames of every range that a reader asks for.
-/

set_option autoImplicit false

namespace Permanu.TelemetryFrames

open TelemetryStore TelemetrySegments List

def littleEndian : ℕ → ℕ → List UInt8
  | 0, _ => []
  | width + 1, n => UInt8.ofNat n :: littleEndian width (n / 256)

def ofLittleEndian : List UInt8 → ℕ
  | [] => 0
  | b :: rest => b.toNat + 256 * ofLittleEndian rest

@[simp] theorem littleEndian_length (width n : ℕ) : (littleEndian width n).length = width := by
  induction width generalizing n with
  | zero => rfl
  | succ width ih => rw [littleEndian, length_cons, ih]

theorem ofLittleEndian_littleEndian {width n : ℕ} (h : n < 256 ^ width) :
    ofLittleEndian (littleEndian width n) = n := by
  induction width generalizing n with
  | zero => exact (Nat.lt_one_iff.mp h).symm
  | succ width ih =>
    have hrest : n / 256 < 256 ^ width := Nat.div_lt_of_lt_mul (by rwa [pow_succ'] at h)
    rw [littleEndian, ofLittleEndian, ih hrest, UInt8.toNat_ofNat']
    exact Nat.mod_add_div n 256

/-- The cast of an `i64` to a `u64`, and back. -/
def toU64 (value : ℤ) : ℕ := (value % 2 ^ 64).toNat
def toI64 (n : ℕ) : ℤ := Int.bmod n (2 ^ 64)

def IsI64 (value : ℤ) : Prop := i64Min ≤ value ∧ value ≤ i64Max

theorem toU64_lt (value : ℤ) : toU64 value < 256 ^ 8 := by
  unfold toU64
  omega

theorem toI64_toU64 {value : ℤ} (h : IsI64 value) : toI64 (toU64 value) = value := by
  unfold IsI64 i64Min i64Max at h
  unfold toI64 toU64
  rw [Int.toNat_of_nonneg (by omega), Int.bmod_def]
  split_ifs <;> omega

def u64At (bytes : List UInt8) (start : ℕ) : ℕ := ofLittleEndian ((bytes.drop start).take 8)

def i64At (bytes : List UInt8) (start : ℕ) : ℤ := toI64 (u64At bytes start)

theorem u64At_append {head tail : List UInt8} {start n : ℕ} (hhead : head.length = start)
    (hn : n < 256 ^ 8) : u64At (head ++ (littleEndian 8 n ++ tail)) start = n := by
  rw [u64At, drop_left' hhead, take_left' (littleEndian_length 8 n),
    ofLittleEndian_littleEndian hn]

theorem i64At_append {head tail : List UInt8} {start : ℕ} {value : ℤ}
    (hhead : head.length = start) (hvalue : IsI64 value) :
    i64At (head ++ (littleEndian 8 (toU64 value) ++ tail)) start = value := by
  rw [i64At, u64At_append hhead (toU64_lt value), toI64_toU64 hvalue]

/-- The bytes that `try_append` writes. -/
def encode (frame : Frame) : List UInt8 :=
  littleEndian 4 (frame.bytes - 4) ++ (littleEndian 8 frame.seq ++
    (littleEndian 8 (toU64 frame.ts) ++ frame.tag :: frame.payload))

/-- `parse_frames`: the frames, and how many bytes were valid. -/
def parseFrames (bytes : List UInt8) : List Frame × ℕ :=
  if bytes.length < frameHeader then ([],0)
  else
    let len := ofLittleEndian (bytes.take 4)
    if ¬ (frameHeader - 4 ≤ len ∧ len ≤ maxFrame) ∨ bytes.length - 4 < len then ([],0)
    else
      let frame : Frame := ⟨u64At bytes 4,i64At bytes 12,bytes[20]?.getD 0,
        (bytes.take (4 + len)).drop frameHeader⟩
      let rest := parseFrames (bytes.drop (4 + len))
      (frame :: rest.1,4 + len + rest.2)
termination_by bytes.length
decreasing_by
  rw [length_drop]
  unfold frameHeader at *
  omega

structure Fits (frame : Frame) : Prop where
  seq : frame.seq < 2 ^ 64
  ts : IsI64 frame.ts
  size : frame.bytes - 4 ≤ maxFrame

section Frames
variable {frame : Frame} {frames rest : List Frame}

theorem encode_length (frame : Frame) : (encode frame).length = frame.bytes := by
  simp only [encode, length_append, littleEndian_length, length_cons, Frame.bytes, frameHeader]
  omega

theorem take_encode (h : Fits frame) (tail : List UInt8) {n : ℕ} (hn : 4 ≤ n) :
    ofLittleEndian (((encode frame ++ tail).take n).take 4) = frame.bytes - 4 := by
  have hsize : frame.bytes - 4 < 256 ^ 4 := h.size.trans_lt (by decide)
  rw [take_take, Nat.min_eq_left hn, encode, append_assoc,
    take_left' (littleEndian_length 4 _), ofLittleEndian_littleEndian hsize]

theorem parseFrames_encode (h : Fits frame) (tail : List UInt8) :
    parseFrames (encode frame ++ tail) =
      (frame :: (parseFrames tail).1,frame.bytes + (parseFrames tail).2) := by
  have hlength := encode_length frame
  have hbytes : frame.bytes = 21 + frame.payload.length := rfl
  have hall : (encode frame ++ tail).length = frame.bytes + tail.length := by
    rw [length_append, hlength]
  have hlen : ofLittleEndian ((encode frame ++ tail).take 4) = frame.bytes - 4 := by
    have htake := take_encode h tail (le_refl 4)
    rwa [take_take, Nat.min_self] at htake
  have hwhole : 4 + (frame.bytes - 4) = frame.bytes := by omega
  have hseq : u64At (encode frame ++ tail) 4 = frame.seq := by
    rw [encode, append_assoc, append_assoc]
    exact u64At_append (littleEndian_length 4 _) (h.seq.trans_eq (by decide))
  have hts : i64At (encode frame ++ tail) 12 = frame.ts := by
    rw [encode, append_assoc, append_assoc, append_assoc, ← append_assoc (littleEndian 4 _)]
    exact i64At_append (by simp) h.ts
  have hhead : (littleEndian 4 (frame.bytes - 4) ++ (littleEndian 8 frame.seq ++
      littleEndian 8 (toU64 frame.ts))).length = 20 := by simp
  have hsplit : encode frame = (littleEndian 4 (frame.bytes - 4) ++ (littleEndian 8 frame.seq ++
      littleEndian 8 (toU64 frame.ts))) ++ frame.tag :: frame.payload := by
    simp [encode]
  have htag : (encode frame ++ tail)[20]? = some frame.tag := by
    rw [hsplit, append_assoc, getElem?_append_right (by rw [hhead]), hhead]
    rfl
  have hpayload : (encode frame).drop frameHeader = frame.payload := by
    rw [hsplit, append_cons]
    exact drop_left' (by rw [length_append, hhead]; rfl)
  rw [parseFrames, if_neg (by rw [hall]; unfold frameHeader; omega)]
  simp only [hlen, hwhole]
  rw [if_neg, hseq, hts, htag, take_left' hlength, drop_left' hlength, hpayload]
  · rfl
  · have hsize := h.size
    unfold frameHeader
    omega

/-- A frame whose end is missing stops the parser. -/
theorem parseFrames_torn (h : Fits frame) (tail : List UInt8) {n : ℕ} (hn : n < frame.bytes) :
    parseFrames ((encode frame ++ tail).take n) = ([],0) := by
  have hshort : ((encode frame ++ tail).take n).length ≤ n := length_take_le _ _
  rw [parseFrames]
  split
  · rfl
  next hheader =>
    have hfour : 4 ≤ n := by
      unfold frameHeader at hheader
      omega
    simp only [take_encode h tail hfour]
    rw [if_pos (.inr (by omega))]

theorem parseFrames_nil : parseFrames [] = ([],0) := by
  rw [parseFrames]
  rfl

theorem parseFrames_frames (h : ∀ frame ∈ frames, Fits frame) :
    parseFrames (frames.flatMap encode) = (frames,framesBytes frames) := by
  induction frames with
  | nil => exact parseFrames_nil
  | cons frame rest ih =>
    rw [flatMap_cons, parseFrames_encode (h frame mem_cons_self),
      ih fun other hother => h other (mem_cons_of_mem _ hother), framesBytes_cons]

theorem parseFrames_take (h : ∀ frame ∈ frames, Fits frame) {start position : ℕ}
    (hstart : start ≤ position) (n : ℕ) :
    (parseFrames ((frames.flatMap encode).take n)).1 =
      framesBetween start (position + n) position frames := by
  induction frames generalizing position n with
  | nil =>
    rw [flatMap_nil, take_nil, parseFrames_nil]
    rfl
  | cons frame rest ih =>
    have hfits := h frame mem_cons_self
    rw [flatMap_cons, framesBetween, if_neg (Nat.not_lt.mpr hstart)]
    split
    next hwhole =>
      obtain ⟨more,rfl⟩ := Nat.exists_eq_add_of_le (show frame.bytes ≤ n by omega)
      have hrest := ih (fun other hother => h other (mem_cons_of_mem _ hother))
        (hstart.trans (Nat.le_add_right position frame.bytes)) more
      rw [add_assoc] at hrest
      rw [← hrest]
      nth_rewrite 1 [← encode_length frame]
      rw [take_length_add_append, parseFrames_encode hfits]
    next htorn => rw [parseFrames_torn hfits _ (by omega)]

/-- A range that starts at a frame is parsed to the frames that end in it. -/
theorem parseFrames_between {before after : List Frame}
    (h : ∀ frame ∈ before ++ after, Fits frame) (stop : ℕ) :
    (parseFrames ((((before ++ after).flatMap encode).take stop).drop (framesBytes before))).1 =
      framesBetween (framesBytes before) stop 0 (before ++ after) := by
  have hbefore : (before.flatMap encode).length = framesBytes before := by
    simp only [length_flatMap, encode_length, framesBytes]
  have hafter : ∀ frame ∈ after, Fits frame :=
    fun frame hframe => h frame (mem_append_right _ hframe)
  rw [framesBetween_skip 0 (zero_add _), drop_take, flatMap_append, drop_left' hbefore]
  rcases Nat.le_total (framesBytes before) stop with hle | hle
  · have htake := parseFrames_take hafter (le_refl (framesBytes before))
      (stop - framesBytes before)
    rwa [Nat.add_sub_cancel' hle] at htake
  · rw [Nat.sub_eq_zero_of_le hle, take_zero, parseFrames_nil]
    cases after with
    | nil => rfl
    | cons frame after =>
      have hpos := Frame.bytes_pos frame
      rw [framesBetween, if_neg (Nat.lt_irrefl _), if_neg (by omega)]

end Frames

/-- `idx_entry` -/
def idxEntry (tag : UInt8) (a b : ℕ) (c d : ℤ) : List UInt8 :=
  [tag] ++ (littleEndian 8 a ++ (littleEndian 8 b ++
    (littleEndian 8 (toU64 c) ++ (littleEndian 8 (toU64 d) ++ []))))

def encodeEntry : IdxEntry → List UInt8
  | .block offset firstSeq firstTs => idxEntry 1 offset firstSeq firstTs 0
  | .summary records lastSeq minTs maxTs => idxEntry 2 records lastSeq minTs maxTs

def parseEntry (entry : List UInt8) : Option IdxEntry :=
  match entry.head? with
  | some 1 => some (.block (u64At entry 1) (u64At entry 9) (i64At entry 17))
  | some 2 => some (.summary (u64At entry 1) (u64At entry 9) (i64At entry 17) (i64At entry 25))
  | _ => none

/-- The index as `load_segment` reads it, in chunks of the width of an entry. -/
def parseIndex (bytes : List UInt8) : List IdxEntry :=
  if bytes.length < idxEntryBytes then []
  else (parseEntry (bytes.take idxEntryBytes)).toList ++ parseIndex (bytes.drop idxEntryBytes)
termination_by bytes.length
decreasing_by
  rw [length_drop]
  unfold idxEntryBytes at *
  omega

def EntryFits : IdxEntry → Prop
  | .block offset firstSeq firstTs => offset < 2 ^ 64 ∧ firstSeq < 2 ^ 64 ∧ IsI64 firstTs
  | .summary records lastSeq minTs maxTs =>
    records < 2 ^ 64 ∧ lastSeq < 2 ^ 64 ∧ IsI64 minTs ∧ IsI64 maxTs

theorem encodeEntry_length (entry : IdxEntry) : (encodeEntry entry).length = idxEntryBytes := by
  cases entry with
  | block | summary => simp [encodeEntry, idxEntry, idxEntryBytes]

theorem idxEntry_fields (tag : UInt8) {a b : ℕ} {c d : ℤ} (ha : a < 2 ^ 64) (hb : b < 2 ^ 64)
    (hc : IsI64 c) (hd : IsI64 d) :
    u64At (idxEntry tag a b c d) 1 = a ∧ u64At (idxEntry tag a b c d) 9 = b ∧
      i64At (idxEntry tag a b c d) 17 = c ∧ i64At (idxEntry tag a b c d) 25 = d := by
  unfold idxEntry
  refine ⟨u64At_append rfl ha,?_,?_,?_⟩
  · rw [← append_assoc [tag]]
    exact u64At_append (by simp) hb
  · rw [← append_assoc [tag], ← append_assoc ([tag] ++ _)]
    exact i64At_append (by simp) hc
  · rw [← append_assoc [tag], ← append_assoc ([tag] ++ _), ← append_assoc ([tag] ++ _ ++ _)]
    exact i64At_append (by simp) hd

theorem parseEntry_encode {entry : IdxEntry} (h : EntryFits entry) :
    parseEntry (encodeEntry entry) = some entry := by
  cases entry with
  | block offset firstSeq firstTs =>
    obtain ⟨hoffset,hfirst,hts⟩ := h
    have hfields := idxEntry_fields 1 hoffset hfirst hts (d := 0) (by unfold IsI64; decide)
    simp only [encodeEntry, parseEntry, hfields]
    rfl
  | summary records lastSeq minTs maxTs =>
    obtain ⟨hrecords,hlast,hmin,hmax⟩ := h
    have hfields := idxEntry_fields 2 hrecords hlast hmin hmax
    simp only [encodeEntry, parseEntry, hfields]
    rfl

theorem parseIndex_entries {index : List IdxEntry} (h : ∀ entry ∈ index, EntryFits entry) :
    parseIndex (index.flatMap encodeEntry) = index := by
  induction index with
  | nil =>
    rw [flatMap_nil, parseIndex]
    rfl
  | cons entry rest ih =>
    have hlength := encodeEntry_length entry
    rw [flatMap_cons, parseIndex, if_neg, take_left' hlength, drop_left' hlength,
      parseEntry_encode (h entry mem_cons_self), ih fun other hother =>
        h other (mem_cons_of_mem _ hother)]
    · rfl
    · rw [length_append, hlength]
      omega

/-- The range of a group starts at a frame. -/
theorem spans_start {groups : List (List Frame)} {offset : ℕ} {range : ℕ × ℕ}
    (h : range ∈ spans offset groups) :
    ∃ before after, groups.flatten = before ++ after ∧ range.1 = offset + framesBytes before := by
  induction groups generalizing offset with
  | nil => cases h
  | cons group rest ih =>
    rcases mem_cons.mp h with rfl | hrest
    · exact ⟨[],(group :: rest).flatten,rfl,rfl⟩
    · obtain ⟨before,after,hsplit,hstart⟩ := ih hrest
      refine ⟨group ++ before,after,?_,?_⟩
      · rw [flatten_cons, hsplit, append_assoc]
      · rw [hstart, framesBytes_append, add_assoc]

/-- The parser gives what the segment keeps: its frames, its index, and the frames of every
range that a reader asks for. -/
structure ReadBack (segment : Segment) : Prop where
  frames : parseFrames (segment.frames.flatMap encode) = (segment.frames,segment.segBytes)
  index : parseIndex (segment.index.flatMap encodeEntry) = segment.index
  ranges : ∀ range ∈ blockRanges segment.segBytes segment.blocks,
    (parseFrames (((segment.frames.flatMap encode).take range.2).drop range.1)).1 =
      framesBetween range.1 range.2 0 segment.frames

theorem readBack_of_sound {segment : Segment} (h : Sound segment)
    (hframes : ∀ frame ∈ segment.frames, Fits frame)
    (hindex : ∀ entry ∈ segment.index, EntryFits entry) : ReadBack segment := by
  refine ⟨?_,parseIndex_entries hindex,?_⟩
  · rw [parseFrames_frames hframes, h.segBytes]
  obtain ⟨groups,-,hflat,hmarks⟩ := h.blocked
  have hranges := h.blockRanges_eq hflat hmarks
  intro range hrange
  rw [hranges] at hrange
  obtain ⟨before,after,hsplit,hstart⟩ := spans_start hrange
  rw [hflat] at hsplit
  rw [hsplit] at hframes ⊢
  rw [hstart, zero_add]
  exact parseFrames_between hframes range.2

/-- In every run whose producers have directories of their own, the segments whose numbers
and times fit their fields are read back from the bytes of their files. -/
theorem stored_segments_read_back (opts : StoreOptions) (retention : Kind → Retention)
    {kind : Kind} {ops : List Op} (h : ∀ op ∈ ops, TelemetryCursors.PlainFor kind op)
    {producer : Producer} {found : ProducerData}
    (hfound : (producer,found) ∈
      ((StepRuns.run step (emptyStore opts retention) ops).kinds kind).producers.entries)
    {segment : Segment} (hsegment : segment ∈ found.segments)
    (hframes : ∀ frame ∈ segment.frames, Fits frame)
    (hindex : ∀ entry ∈ segment.index, EntryFits entry) : ReadBack segment := by
  obtain ⟨log,hok,-⟩ := TelemetryCursors.run_ok opts retention h
  obtain ⟨-,hproducer,-⟩ := hok.producers producer found hfound
  exact readBack_of_sound (hproducer.sound segment hsegment) hframes hindex

end Permanu.TelemetryFrames
