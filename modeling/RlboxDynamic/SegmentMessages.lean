import Mathlib.Data.BitVec
import RlboxDynamic.MessageFraming

/-! Messages of one segment of words behind a table with its size, as a reader
of a stream takes them: the first word of the table, then the segment. Nothing
here names a particular message. -/
namespace RlboxDynamic.SegmentMessages
open LittleEndian MessageFraming

/-- The segment table: one segment less one, and its words. -/
def table (segment : List (BitVec 64)) : List (BitVec 32) := [0, BitVec.ofNat 32 segment.length]

def frame (segment : List (BitVec 64)) : List Byte :=
  wordsBytes 4 (table segment) ++ wordsBytes 8 segment

/-- What a reader makes of a whole message. -/
def scanned : Option α → Scan α
  | some m => .message m
  | none => .malformed

/-- What a reader makes of the bytes it has. A message of more segments is not
taken. -/
def scan (decode : List (BitVec 64) → Option α) (bytes : List Byte) : Scan α :=
  if bytes.length < 8 then .more (8 - bytes.length)
  else
    match bytesWords 32 4 2 bytes with
    | [others, words] =>
      if others ≠ 0 then .malformed
      else if bytes.length < 8 + 8 * words.toNat then .more (8 + 8 * words.toNat - bytes.length)
      else scanned (decode (bytesWords 64 8 words.toNat (bytes.drop 8)))
    | _ => .malformed

def messages (encode : α → List (BitVec 64)) (decode : List (BitVec 64) → Option α) : Framing α where
  encode m := frame (encode m)
  scan := scan decode

@[simp] theorem length_frame (segment : List (BitVec 64)) :
    (frame segment).length = 8 + 8 * segment.length := by
  simp [frame, table]

/-- With the table read, a reader asks for the rest of the segment. -/
theorem scan_of_table {decode : List (BitVec 64) → Option α} {segment : List (BitVec 64)}
    (small : segment.length < 2 ^ 32) (some_of_it : List Byte) :
    scan decode (wordsBytes 4 (table segment) ++ some_of_it) =
      if some_of_it.length < 8 * segment.length then .more (8 * segment.length - some_of_it.length)
      else scanned (decode (bytesWords 64 8 segment.length some_of_it)) := by
  have whole : (wordsBytes 4 (table segment)).length = 8 := by simp [table]
  have read : bytesWords 32 4 2 (wordsBytes 4 (table segment) ++ some_of_it) = table segment :=
    bytesWords_append (table segment) some_of_it (by omega)
  have size : (BitVec.ofNat 32 segment.length).toNat = segment.length := by
    rw [BitVec.toNat_ofNat, Nat.mod_eq_of_lt small]
  rw [scan, List.length_append, whole, if_neg (by omega), read, List.drop_left' whole]
  simp only [table, ne_eq, not_true_eq_false, if_false, size, Nat.add_lt_add_iff_left,
    Nat.add_sub_add_left]

theorem frames_of_decode {encode : α → List (BitVec 64)} {decode : List (BitVec 64) → Option α} {m : α}
    (decodes : decode (encode m) = some m) (small : (encode m).length < 2 ^ 32) :
    (messages encode decode).Frames m where
  some_bytes := List.ne_nil_of_length_pos (by rw [messages, length_frame]; omega)
  whole := by
    have read := bytesWords_wordsBytes (encode m) (n := 8) (by omega)
    simp only [messages, frame]
    rw [scan_of_table small, length_wordsBytes, if_neg (Nat.lt_irrefl _), read, decodes]
    rfl
  part p rest sent some_rest := by
    have lengths : 8 + 8 * (encode m).length = p.length + rest.length := by
      rw [← length_frame, ← List.length_append]
      exact congrArg List.length sent
    have left := List.length_pos_of_ne_nil some_rest
    by_cases short : p.length < 8
    · exact ⟨8 - p.length, if_pos short, by omega, by omega⟩
    · have whole : (wordsBytes 4 (table (encode m))).length = 8 := by simp [table]
      obtain ⟨q, rfl⟩ : ∃ q, p = wordsBytes 4 (table (encode m)) ++ q := by
        have first : wordsBytes 4 (table (encode m)) <+: p ++ rest := ⟨_, sent⟩
        obtain ⟨q, same⟩ := List.prefix_of_prefix_length_le first ⟨rest, rfl⟩ (by omega)
        exact ⟨q, same.symm⟩
      rw [List.length_append, whole] at lengths
      have part : q.length < 8 * (encode m).length := by omega
      exact ⟨_, (scan_of_table small q).trans (if_pos part), by omega, by omega⟩

end RlboxDynamic.SegmentMessages
