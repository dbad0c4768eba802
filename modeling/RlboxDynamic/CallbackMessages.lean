import RlboxDynamic.CallbackDispatch
import RlboxDynamic.SegmentMessages

/-! The two messages of the callback socket as words of a segment, in the layout
the builder of the wire schema gives them. -/
namespace RlboxDynamic.CallbackMessages
open LittleEndian MessageFraming SegmentMessages

/-- The pointer to a struct that comes next, with so many words of data and
pointers. -/
def structPointer (data pointers : BitVec 16) : BitVec 64 := pointers ++ data ++ 0#32

/-- The pointer to a list of words that comes next. -/
def listPointer (count : Nat) : BitVec 64 := BitVec.ofNat 29 count ++ 5#3 ++ 1#32

def CallbackRequest.words (request : CallbackRequest) : List (BitVec 64) :=
  structPointer 1 1 :: request.key :: listPointer request.args.length :: request.args

def CallbackRequest.ofWords : List (BitVec 64) → Option CallbackRequest
  | root :: key :: list :: args =>
    if root = structPointer 1 1 ∧ list = listPointer args.length then some ⟨key, args⟩ else none
  | _ => none

/-- `CallbackResponse` is its result. -/
def CallbackResponse.words (result : BitVec 64) : List (BitVec 64) := [structPointer 1 0, result]

def CallbackResponse.ofWords : List (BitVec 64) → Option (BitVec 64)
  | [root, result] => if root = structPointer 1 0 then some result else none
  | _ => none

def requests : Framing CallbackRequest := messages CallbackRequest.words CallbackRequest.ofWords

def responses : Framing (BitVec 64) := messages CallbackResponse.words CallbackResponse.ofWords

theorem requests_frames (key : BitVec 64) {args : List (BitVec 64)} (few : args.length < 2 ^ 29) :
    requests.Frames ⟨key, args⟩ := by
  apply frames_of_decode
  · simp [CallbackRequest.words, CallbackRequest.ofWords]
  · simp only [CallbackRequest.words, List.length_cons]
    omega

theorem responses_frames (result : BitVec 64) : responses.Frames result := by
  apply frames_of_decode
  · simp [CallbackResponse.words, CallbackResponse.ofWords]
  · simp [CallbackResponse.words]

end RlboxDynamic.CallbackMessages
