import RlboxDynamic.LittleEndian

/-! Messages on a byte stream, as a reader takes them: it looks at the bytes it
has of one message and asks for so many more, until it has them all. Nothing here
names a particular format. -/
namespace RlboxDynamic.MessageFraming
open LittleEndian

/-- What a reader makes of the bytes it has. -/
inductive Scan (α : Type u) where
  | more (wanted : Nat)
  | malformed
  | message (m : α)
  deriving DecidableEq

structure Framing (α : Type u) where
  encode : α → List Byte
  scan : List Byte → Scan α

/-- A message that is written is read whole, and nothing after it. -/
structure Framing.Frames (F : Framing α) (m : α) : Prop where
  some_bytes : F.encode m ≠ []
  whole : F.scan (F.encode m) = .message m
  part : ∀ p rest, F.encode m = p ++ rest → rest ≠ [] →
    ∃ wanted, F.scan p = .more wanted ∧ 0 < wanted ∧ wanted ≤ rest.length

namespace Framing.Frames
variable {F : Framing α} {m : α}

/-- What a reader of a message makes of the bytes it has so far. -/
theorem scan_cases (frames : F.Frames m) (sent : F.encode m = p ++ rest) :
    (rest = [] ∧ F.scan p = .message m) ∨
      (rest ≠ [] ∧ ∃ wanted, F.scan p = .more wanted ∧ 0 < wanted ∧ wanted ≤ rest.length) := by
  by_cases empty : rest = []
  · rw [empty, List.append_nil] at sent
    exact .inl ⟨empty, sent ▸ frames.whole⟩
  · exact .inr ⟨empty, frames.part p rest sent empty⟩

end Framing.Frames
end RlboxDynamic.MessageFraming
