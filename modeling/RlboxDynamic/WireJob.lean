import RlboxDynamic.FfiCall
import RlboxDynamic.LittleEndian

/-! A job in the bytes of a request pipe: a header, and two arrays of a length
the header gives. -/
namespace RlboxDynamic
open LittleEndian

/-- Sixteen bytes, without padding on either target. -/
structure WireJobHeader where
  funcAddr : BitVec 64
  retTag : BitVec 32
  nargs : BitVec 32
  deriving DecidableEq

namespace WireJobHeader

def toBytes (hdr : WireJobHeader) : List Byte :=
  wordBytes 8 hdr.funcAddr ++ wordBytes 4 hdr.retTag ++ wordBytes 4 hdr.nargs

def ofBytes (bytes : List Byte) : WireJobHeader where
  funcAddr := bytesWord 64 (bytes.take 8)
  retTag := bytesWord 32 ((bytes.drop 8).take 4)
  nargs := bytesWord 32 ((bytes.drop 12).take 4)

@[simp] theorem length_toBytes (hdr : WireJobHeader) : hdr.toBytes.length = 16 := by simp [toBytes]

/-- What `worker_main` hands to `do_ffi_call`. -/
def job (t : Target) (hdr : WireJobHeader) (argTags : List (BitVec 32)) (argValues : List (BitVec 64)) :
    Job t where
  funcAddr := hdr.funcAddr.setWidth t.ptrBits
  retTag := hdr.retTag
  argTags
  argValues

theorem ofBytes_toBytes (hdr : WireJobHeader) : ofBytes hdr.toBytes = hdr := by
  have funcAddr : hdr.toBytes.take 8 = wordBytes 8 hdr.funcAddr := by
    rw [toBytes, List.append_assoc, List.take_left' (length_wordBytes 8 _)]
  have rest : hdr.toBytes.drop 8 = wordBytes 4 hdr.retTag ++ wordBytes 4 hdr.nargs := by
    rw [toBytes, List.append_assoc, List.drop_left' (length_wordBytes 8 _)]
  have last : hdr.toBytes.drop 12 = wordBytes 4 hdr.nargs := by
    rw [toBytes, List.drop_left' (by simp)]
  rw [ofBytes, funcAddr, rest, last, List.take_left' (length_wordBytes 4 _),
    List.take_of_length_le (Nat.le_of_eq (length_wordBytes 4 _)),
    bytesWord_wordBytes (n := 8) hdr.funcAddr (by omega),
    bytesWord_wordBytes (n := 4) hdr.retTag (by omega),
    bytesWord_wordBytes (n := 4) hdr.nargs (by omega)]

end WireJobHeader

namespace Job
variable {t : Target}

/-- The header `dispatch_to_worker` fills in. -/
def header (job : Job t) : WireJobHeader where
  funcAddr := job.funcAddr.setWidth 64
  retTag := job.retTag
  nargs := BitVec.ofNat 32 job.argTags.length

/-- What it writes, one `write_full` after the other. -/
def buffers (job : Job t) : List (List Byte) :=
  if job.argTags = [] then [job.header.toBytes]
  else [job.header.toBytes, wordsBytes 4 job.argTags, wordsBytes 8 job.argValues]

/-- A job `handle_invoke` goes on with. -/
structure Checked (job : Job t) : Prop where
  same : job.argTags.length = job.argValues.length
  few : job.argTags.length ≤ kMaxArgs

theorem Checked.nargs {job : Job t} (checked : job.Checked) :
    job.header.nargs.toNat = job.argTags.length := by
  have few := checked.few
  have small : kMaxArgs < 2 ^ 32 := by decide
  rw [header, BitVec.toNat_ofNat, Nat.mod_eq_of_lt (by omega)]

@[simp] theorem job_header (job : Job t) : job.header.job t job.argTags job.argValues = job := by
  rw [WireJobHeader.job, header, BitVec.setWidth_setWidth_of_le _ t.ptrBits_le, BitVec.setWidth_eq]

end Job

/-- The `read_full` that `worker_main` is in. -/
inductive JobPart where
  | header
  | tags (hdr : WireJobHeader)
  | values (hdr : WireJobHeader) (argTags : List (BitVec 32))
  deriving DecidableEq

namespace JobPart
variable {t : Target}

def size : JobPart → Nat
  | .header => 16
  | .tags hdr => 4 * hdr.nargs.toNat
  | .values hdr _ => 8 * hdr.nargs.toNat

/-- What the worker knows of the job in this `read_full`. -/
inductive Of (job : Job t) : JobPart → Prop where
  | header : Of job .header
  | tags (args : job.argTags ≠ []) : Of job (.tags job.header)
  | values (args : job.argTags ≠ []) : Of job (.values job.header job.argTags)

/-- The bytes of the job from there on. -/
def bytesFrom (job : Job t) : JobPart → List Byte
  | .header => job.buffers.flatten
  | .tags _ => wordsBytes 4 job.argTags ++ wordsBytes 8 job.argValues
  | .values _ _ => wordsBytes 8 job.argValues

end JobPart
end RlboxDynamic
