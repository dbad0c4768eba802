import RlboxDynamic.InvokeRoundTrip
import RlboxDynamic.PoolEqualsInline

/-! An invoke from one end to the other: the host packs the arguments of a
function, their bytes go to a child in any pieces, libffi calls the function, and
what it returns comes back the same way. The host gets what the function
returned for the values it was called with, or the child died first. -/
namespace RlboxDynamic
open Transition JobExchange

variable {t : Target}

/-- A function of the library: what it may return for the values of its
parameters, and nothing where it is `void`. -/
structure CFunction (t : Target) where
  params : List CType
  ret : Option CType
  result : List (CValue t) → Option (CValue t) → Prop
  typed : ∀ args r, result args r → r.map CValue.type = ret

/-- The `ffi_type` of a return type. -/
def ffiRet (t : Target) : Option CType → FfiType
  | none => .void
  | some type => type.ffiType t

/-- The code at an address is the function: called by libffi with arguments that
hold its parameters' values, it leaves in its return registers, and so libffi in
`ret_buf`, what the function may return for them. -/
def Implements (env : ShimEnv t) (library : Job t → BitVec t.ptrBits → Prop) (funcAddr : TPointer t)
    (f : CFunction t) : Prop :=
  ∀ job call args buf, prepareCall env.prepCif env.shmBase job = some call →
    call.funcAddr = funcAddr → call.retType = ffiRet t f.ret →
    List.Forall₂ Reads args call.args → args.map CValue.type = f.params → library job buf →
    ∃ r, f.result args r ∧ ∀ v, r = some v →
      ∃ registers, v.LeftIn registers ∧ buf = retBuf t call.retType registers

/-- The value comes back whatever its callee leaves above it: it survives the one
word of `ret_buf`, and is not `false`. -/
def CValue.Survives (v : CValue t) : Prop := v.FitsWord ∧ (v.type = .bool → v.bits ≠ 0)

theorem CValue.Survives.back {v : CValue t} (survives : v.Survives) {registers : BitVec 64}
    (left : v.LeftIn registers) : castResult v.type (sentBack t v.type registers) = v :=
  (castResult_iff left).mpr ⟨survives.1, fun isBool zero => absurd zero (survives.2 isBool)⟩

/-- What the wire makes of a function and the values for its parameters. -/
def invokeJob (funcAddr : TPointer t) (ret : Option CType) (values : List (CValue t)) : Job t where
  funcAddr
  retTag := retTagOf t ret
  argTags := values.map fun v => v.type.tagOf t
  argValues := values.map packSlot

variable {env : ShimEnv t} {funcAddr : TPointer t} {values : List (CValue t)}

theorem checked_invokeJob (ret : Option CType) (few : values.length ≤ kMaxArgs) :
    (invokeJob funcAddr ret values).Checked where
  same := by simp [invokeJob]
  few := by simpa [invokeJob] using few

theorem enter_invokeJob (callable : Callable env funcAddr) (ret : Option CType)
    (few : values.length ≤ kMaxArgs) :
    Shim.enter env (invokeJob funcAddr ret values) = .entered (invokeJob funcAddr ret values) := by
  have checks : ¬ (env.shmBase = 0 ∨ funcAddr = 0) := not_or.mpr ⟨callable.mapped, callable.nonNull⟩
  rw [Shim.enter, invokeJob, if_neg checks, if_neg (by simp), if_neg (by simpa using few)]

/-- libffi calls the function with a slot for each value. -/
theorem prepareCall_invokeJob (callable : Callable env funcAddr) (ret : Option CType)
    (few : values.length ≤ kMaxArgs) :
    prepareCall env.prepCif env.shmBase (invokeJob funcAddr ret values) =
      some ⟨funcAddr, ffiRet t ret, values.map fun v => (v.type.ffiType t, packSlot v)⟩ := by
  have checks : ¬ (env.shmBase = 0 ∨ funcAddr = 0) := not_or.mpr ⟨callable.mapped, callable.nonNull⟩
  have returns : ffiTypeForTag (retTagOf t ret) = some (ffiRet t ret) := by
    cases ret with
    | none => rfl
    | some type => exact ffiTypeForTag_tagOf type
  have accepted : env.prepCif ((values.map fun v => (v.type.ffiType t, packSlot v)).map Prod.fst)
      (ffiRet t ret) = true :=
    callable.accepts _ _ (by simpa using few) (by simp [ffiType_ne_void])
  rw [prepareCall, invokeJob, if_neg checks, if_neg (by simpa using few), mapM_prepareArg, returns]
  exact if_pos accepted

theorem reads_packSlots (values : List (CValue t)) :
    List.Forall₂ Reads values (values.map fun v => (v.type.ffiType t, packSlot v)) := by
  rw [List.forall₂_map_right_iff]
  exact List.forall₂_same.mpr fun v _ => reads_packSlot v

namespace JobExchange.Exchange
variable {library : Job t → BitVec t.ptrBits → Prop} {job : Job t} {call : FfiCall t}
  {s s' : Exchange t} {a : Action t} {as : List (Action t)}

/-- What the child answers is what the library left for the one call of the
job. -/
def FromLibrary (library : Job t → BitVec t.ptrBits → Prop) (job : Job t) (s : Exchange t) : Prop :=
  ∀ result, s.answer = some result →
    s.calls = [job] ∧ ∃ buf, library job buf ∧ result = ffiResult job.retTag buf

theorem FromLibrary.step (prepared : prepareCall env.prepCif env.shmBase job = some call)
    (kept : s.Carries job) (fromLibrary : s.FromLibrary library job)
    (done : Running env library s a s') : s'.FromLibrary library job := by
  obtain ⟨answers, done⟩ := done
  have child := kept.child
  cases does_of_step done with
  | refuses calling refused =>
    rw [calling] at child
    cases child with
    | calling => cases prepared.symm.trans refused
  | calls calling =>
    intro result answered
    rw [calling] at child
    cases child with
    | calling _ fresh => cases fresh.answer.symm.trans answered
  | @returns called buf inside =>
    intro result answered
    have left : library called buf := answers called inside
    rw [inside] at child
    cases child with
    | inLibrary _ calls =>
      cases answered
      exact ⟨calls, buf, left, rfl⟩
  | _ => exact fromLibrary

/-- A call that carries the job and answers for it. -/
structure Answering (library : Job t → BitVec t.ptrBits → Prop) (job : Job t) (s : Exchange t) : Prop where
  carries : s.Carries job
  fromLibrary : s.FromLibrary library job

theorem run_answering {start : Exchange t} (checked : job.Checked)
    (prepared : prepareCall env.prepCif env.shmBase job = some call)
    (first : start ∈ [pooled .nobody job, inline .nobody job]) (run : Run (Running env library) start as s) :
    s.Answering library job := by
  have begins : start.Answering library job := by
    refine ⟨carries_start checked first, fun _ answered => ?_⟩
    rcases List.mem_pair.mp first with rfl | rfl <;> cases answered
  refine run.invariant begins fun s a s' kept done => ?_
  exact ⟨step_carries checked kept.carries done.2, kept.fromLibrary.step prepared kept.carries done⟩

end JobExchange.Exchange

/-- The child made exactly the one call, and the host's cast of the result is
what the function returned for the values. -/
def Delivered (f : CFunction t) (values : List (CValue t)) (job : Job t) (s : Exchange t)
    (raw : BitVec 64) : Prop :=
  s.calls = [job] ∧ ∃ r, f.result values r ∧ ∀ v, r = some v → v.Survives → castResult v.type raw = v

theorem delivered_of_settled {library : Job t → BitVec t.ptrBits → Prop} {f : CFunction t}
    {s : Exchange t} {raw : BitVec 64} (callable : Callable env funcAddr)
    (implements : Implements env library funcAddr f) (typed : values.map CValue.type = f.params)
    (few : values.length ≤ kMaxArgs)
    (fromLibrary : s.FromLibrary library (invokeJob funcAddr f.ret values)) (settled : s.Settled raw) :
    Delivered f values (invokeJob funcAddr f.ret values) s raw ∨ s.written.length < 8 ∧ raw = 0 := by
  rcases settled with ⟨answered, -⟩ | lost
  · obtain ⟨calls, buf, left, rfl⟩ := fromLibrary raw answered
    obtain ⟨r, returned, lands⟩ := implements _ _ values buf (prepareCall_invokeJob callable f.ret few)
      rfl rfl (reads_packSlots values) typed left
    refine .inl ⟨calls, r, returned, fun v same survives => ?_⟩
    subst same
    have type : f.ret = some v.type := (f.typed values _ returned).symm
    obtain ⟨registers, holds, rfl⟩ := lands v rfl
    simpa only [sentBack, invokeJob, type, ffiRet, retTagOf] using survives.back holds
  · exact .inr lost

/-- An invoke gets what the function returns for the values it was given, from
exactly one call of it, or 0 where the child died before its result was out:
over either path, in whatever pieces, and it comes back once the function does.
Nobody else has an end of the pipes. -/
theorem invoke_end_to_end {library : Job t → BitVec t.ptrBits → Prop} {f : CFunction t}
    (callable : Callable env funcAddr) (implements : Implements env library funcAddr f) (a : ArgTypes)
    (values : List (CValue t)) (typed : values.map CValue.type = f.params)
    (few : values.length ≤ kMaxArgs) :
    ∃ job, (invokeRequest funcAddr f.ret f.params
        (values.map fun v => v.cast (a.of t v.type))).job t = some job ∧
      Shim.enter env job = .entered job ∧
      ∀ start ∈ [Exchange.pooled .nobody job, .inline .nobody job], ∀ as s,
        Run (Exchange.Running env library) start as s →
        s.Sound env library job ∧ as.countP (· ≠ .interrupted) ≤ start.weight ∧
        ∀ raw, s.parent = .returned raw →
          Delivered f values job s raw ∨ s.written.length < 8 ∧ raw = 0 := by
  have checked : (invokeJob funcAddr f.ret values).Checked := checked_invokeJob f.ret few
  refine ⟨_, typed ▸ job_invokeRequest a f.ret values, enter_invokeJob callable f.ret few, ?_⟩
  intro start first as s run
  have prepared := prepareCall_invokeJob callable f.ret few
  obtain ⟨kept, fromLibrary⟩ := Exchange.run_answering checked prepared first run
  have sound : s.Sound env library (invokeJob funcAddr f.ret values) := kept.sound library checked
  have bound : as.countP (· ≠ .interrupted) + s.weight ≤ start.weight :=
    Exchange.run_weight checked (Exchange.carries_start checked first) run
  refine ⟨sound, by omega, fun raw returned => ?_⟩
  exact delivered_of_settled callable implements typed few fromLibrary (sound.result raw returned)

/-- An `int` function of an `int` that returns 9. -/
def nine : CFunction .i386 where
  params := [.int]
  ret := some .int
  result _ r := r = some (.ofSlot .int 9)
  typed _ _ same := by rw [same]; rfl

theorem nine_implemented : Implements mappedShim (fun _ buf => buf = 9) 0x2000 nine := by
  rintro job call args _ - - ret - - rfl
  refine ⟨_, rfl, fun v same => ⟨9, ?_⟩⟩
  cases same
  rw [ret]
  decide

/-- One call of it, its job and its result in pieces. -/
theorem nine_comes_back : ∃ job as s,
    Run (Exchange.Running mappedShim fun _ buf => buf = 9) (.pooled .nobody job) as s ∧
      s.parent = .returned 9 ∧ Delivered nine [.ofSlot .int 5] job s 9 := by
  obtain ⟨job, sent, -, served⟩ := invoke_end_to_end mappedShim_callable nine_implemented .asWritten
    [.ofSlot .int 5] rfl (by decide)
  have ran : (execAll (Exchange.exec mappedShim) (.pooled .nobody job)
      [.send 5, .receive 2, .interrupted, .send 11, .receive 14, .send 4, .send 3, .receive 4, .send 5,
        .receive 7, .interrupted, .receive 1, .lockDown ⟨true, true⟩, .call, .libraryReturns 9,
        .write 3, .read 2, .write 5, .read 6, .wait]).map (·.parent) = some (.returned 9) := by
    cases sent
    rfl
  obtain ⟨s, run, returned⟩ := exists_run ran
  have running : Run (Exchange.Running mappedShim fun _ buf => buf = 9) _ _ s :=
    run.guarded (by simp [Exchange.Answers])
  obtain ⟨-, -, delivered⟩ := served _ List.mem_cons_self _ s running
  rcases delivered 9 returned with whole | ⟨-, lost⟩
  · exact ⟨job, _, s, running, returned, whole⟩
  · cases lost

end RlboxDynamic
