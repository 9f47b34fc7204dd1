import TieredHart.Proofs.Interpretation
import TieredHart.Proofs.Watch

namespace TieredHart

variable {σ α β : Type} {space : AddressSpace} {pc : Word} {pa n : Nat} {frame : Nat} {codeFrames : List Nat}
  {told : List (Nat × Nat) → Engine → Prop}

def Instruction.writes (insn : Instruction) (space : AddressSpace) (hart : Hart) : Except Fault Flow → List (Nat × Nat)
  | .error _ => []
  | .ok _ =>
    match insn.op, hart.reg insn.rs1 with
    | .store op, .ok base =>
      ((space .store (base + Word.ofImmediate insn.imm)).map fun place => (place.pa, op.width.bytes)).toList
    | _, _ => []

def Instruction.wrote (insn : Instruction) (space : AddressSpace) (bus : Bus σ) (pc : Word) (core : Core σ) :
    List (Nat × Nat) :=
  match execute bus insn pc core with
  | .ok answer _ => insn.writes space core.hart answer
  | .error .. => []

theorem Instruction.writes_store {insn : Instruction} {op : StoreOp} {hart : Hart} {base : Word} (named : insn.op = .store op)
    (held : hart.reg insn.rs1 = .ok base) (space : AddressSpace) (flow : Flow) : insn.writes space hart (.ok flow) =
      ((space .store (base + Word.ofImmediate insn.imm)).map fun place => (place.pa, op.width.bytes)).toList := by
  unfold writes
  rw [named, held]

theorem Instruction.writes_other {insn : Instruction} (other : ∀ op, insn.op ≠ .store op) (space : AddressSpace) (hart : Hart)
    (flow : Flow) : insn.writes space hart (.ok flow) = [] := by
  unfold writes
  dsimp only
  split
  · rename_i named _
    exact absurd named (other _)
  · rfl

theorem AddressSpace.locate_reads (space : AddressSpace) (kind : Access) (va : Word) (s : Attached σ) :
    Ends (space.locate kind va) s
      (fun answer t => t.device = s.device ∧ ∀ pa, answer = .ok pa → (space kind va).map (·.pa) = some pa)
      fun _ t => t.device = s.device := by
  unfold Ends
  rw [AddressSpace.locate_eq]
  cases space kind va with
  | none => exact ⟨rfl, nofun⟩
  | some place =>
    dsimp only
    cases place.irq with
    | none => exact ⟨rfl, fun pa same => congrArg some (Except.ok.inj same)⟩
    | some code =>
      dsimp only
      cases Lines.raised s.lines code with
      | ok lines => exact ⟨rfl, fun pa same => congrArg some (Except.ok.inj same)⟩
      | error failure => exact rfl

-- What can be said of an engine by what code on a frame stores to it: a store says what it did, and reports say nothing.
structure Engine.Tells (frame : Nat) (engine : Engine) (told : List (Nat × Nat) → Engine → Prop) : Prop where
  nothing : told [] engine
  stored : ∀ pa data, Ends (store pa data (some frame)) engine
    (fun answer after => told (written pa data.length answer) after) fun _ after => after = engine
  reported : ∀ writes after event, told writes after → told writes { after with cache := after.cache.report event }

theorem Engine.Worked.tells {engine : Engine} (fetching : engine.fetchFrame = some frame) :
    engine.Tells frame fun writes after => engine.Worked writes after := by
  refine ⟨.refl engine, fun pa data => ?_, fun _ after event worked => worked.trans (.reported after event)⟩
  rw [← fetching]
  exact store_worked pa data engine

namespace DataSide

variable {width : Width} {va value : Word} {s : Attached DataSide}

theorem load_reads (space : AddressSpace) (va : Word) (width : Width) (s : Attached DataSide) :
    Ends (load space va width) s (fun _ t => t.device = s.device) fun _ t => t.device = s.device := by
  unfold load
  rw [ends_bind]
  refine (space.locate_reads .load va s).weaken ?_
  rintro answer t ⟨same, -⟩
  cases answer with
  | error fault => exact same
  | ok pa =>
    dsimp only
    rw [ends_bind, ends_onEngine, Engine.ends_readRam]
    refine ⟨fun answer _ => ?_, fun _ _ => same⟩
    cases answer with
    | error range => exact same
    | ok bytes => exact same

theorem store_told (tells : s.device.engine.Tells frame told) :
    Ends (store space frame codeFrames va width value) s
      (fun answer t => told (match answer with
        | .ok _ => ((space .store va).map fun place => (place.pa, width.bytes)).toList
        | .error _ => []) t.device.engine) fun _ t => t.device.engine = s.device.engine := by
  unfold store
  rw [ends_bind]
  refine (space.locate_reads .store va s).mono ?_ fun _ t same => by rw [same]
  rintro answer ⟨lines, device⟩ ⟨rfl, found⟩
  cases answer with
  | error fault => exact tells.nothing
  | ok pa =>
    obtain ⟨place, known, rfl⟩ := Option.map_eq_some_iff.mp (found pa rfl)
    have filled : width.bytes ≠ 0 := by cases width <;> decide
    dsimp only
    rw [ends_bind, ends_onEngine]
    refine (tells.stored place.pa (Bytes.ofNat width.bytes value.toNat)).mono ?_ ?_
    · intro answer after done
      rw [Bytes.ofNat_length] at done
      cases answer with
      | error range => exact done
      | ok effect =>
        have written : Engine.written place.pa width.bytes (.ok effect) = [(place.pa, width.bytes)] := if_neg filled
        rw [written] at done
        rw [known]
        dsimp only
        split
        · exact done
        · exact done
    · rintro _ _ rfl
      rfl

theorem execute_told {core : Core DataSide} (tells : core.device.engine.Tells frame told) (insn : Instruction) (pc : Word) :
    Ends (execute (codeBus space frame codeFrames).toBus insn pc) core
      (fun answer after => told (insn.writes space core.hart answer) after.device.engine)
      fun _ after => after.device.engine = core.device.engine := by
  have read : ∀ {va width answer t}, (codeBus space frame codeFrames).load va width core.attached = .ok answer t →
      t.device = core.device := fun answered => (load_reads space _ _ _).answer answered
  have stored : ∀ va width value, Ends (store space frame codeFrames va width value) core.attached _ _ :=
    fun _ _ _ => store_told tells
  have quiet : ∀ {flow after}, (∀ op, insn.op ≠ .store op) → after = core.device →
      told (insn.writes space core.hart (.ok flow)) after.engine := by
    rintro flow _ other rfl
    rw [Instruction.writes_other other]
    exact tells.nothing
  refine (execute_executed _ insn pc core).mono (fun answer after executed => ?_) fun failure after broken => ?_
  · cases executed with
    | computed other => exact quiet other rfl
    | loaded named _ answered => exact quiet (by simp [named]) (read answered)
    | returned named | exchanged named => exact quiet (by simp [named]) rfl
    | stored named held answered =>
      rw [Instruction.writes_store named held]
      exact (stored _ _ _).answer answered
    | unstored _ _ answered => exact (stored _ _ _).answer answered
    | unloaded _ _ answered =>
      show told [] _
      rw [Core.reattached, read answered]
      exact tells.nothing
    | misaligned | called | halted | denied => exact tells.nothing
  · cases broken with
    | load _ _ failed => exact congrArg DataSide.engine ((load_reads space _ _ _).failure failed)
    | store _ _ failed => exact (stored _ _ _).failure failed
    | unfit _ _ answered => exact congrArg DataSide.engine (read answered)
    | illegal _ same => exact congrArg DataSide.engine same

-- What an instruction of a block does to the engine. If the host gives up, nothing was done yet.
theorem execute_wrote {core : Core DataSide} (tells : core.device.engine.Tells frame told) (insn : Instruction) (pc : Word) :
    Ends (execute (codeBus space frame codeFrames).toBus insn pc) core
      (fun _ after => told (insn.wrote space (codeBus space frame codeFrames).toBus pc core) after.device.engine)
      fun _ after => after.device.engine = core.device.engine := by
  refine .intro (fun answer after ran => ?_) fun _ after failed => (execute_told tells insn pc).failure failed
  have done := (execute_told tells insn pc).answer ran
  unfold Instruction.wrote
  rw [ran]
  exact done

theorem execute_worked {core : Core DataSide} (fetching : core.device.engine.fetchFrame = some frame) (insn : Instruction)
    (pc : Word) : Ends (execute (codeBus space frame codeFrames).toBus insn pc) core
      (fun _ after => core.device.engine.Worked (insn.wrote space (codeBus space frame codeFrames).toBus pc core)
        after.device.engine) fun _ after => core.device.engine.Worked [] after.device.engine := by
  refine (execute_wrote (Engine.Worked.tells fetching) insn pc).mono (fun _ _ worked => worked) fun _ after same => ?_
  rw [same]
  exact .refl _

end DataSide

namespace ThreadedCode

variable {code : Array UInt8} {entry : Entry} {core : Core DataSide}

def stepWrites (space : AddressSpace) (code : Array UInt8) (bus : CodeBus σ) (entry : Entry) (cursor : Cursor)
    (core : Core σ) : List (Nat × Nat) :=
  match MicroOp.decode? code cursor.index with
  | none => []
  | some micro =>
    match micro.kind, micro.instruction? with
    | .insn, some insn | .loopBranch, some insn =>
      insn.wrote space bus.toBus (entry.pc + BitVec.ofNat 64 micro.pcOffset.toNat) core
    | _, _ => []

def writesFrom (space : AddressSpace) (code : Array UInt8) (bus : CodeBus σ) (entry : Entry) :
    Nat → Cursor → Core σ → List (Nat × Nat)
  | 0, _, _ => []
  | fuel + 1, cursor, core =>
    match step code bus entry cursor core with
    | .ok (.further next) after =>
      writesFrom space code bus entry fuel next after ++ stepWrites space code bus entry cursor core
    | _ => stepWrites space code bus entry cursor core

theorem stepWrites_executes {bus : CodeBus σ} {cursor : Cursor} {micro : MicroOp} {insn : Instruction}
    (there : MicroOp.decode? code cursor.index = some micro) (kind : micro.Executes)
    (named : micro.instruction? = some insn) (core : Core σ) : stepWrites space code bus entry cursor core =
      insn.wrote space bus.toBus (entry.pc + BitVec.ofNat 64 micro.pcOffset.toNat) core := by
  unfold stepWrites
  rcases kind with kind | kind <;> simp only [there, kind, named]

theorem step_worked (fetching : core.device.engine.fetchFrame = some frame) (cursor : Cursor) :
    Ends (step code (DataSide.codeBus space frame codeFrames) entry cursor) core
      (fun _ after => core.device.engine.Worked
        (stepWrites space code (DataSide.codeBus space frame codeFrames) entry cursor core) after.device.engine)
      fun _ after => ∃ writes, core.device.engine.Worked writes after.device.engine := by
  refine step_stepped.mono (fun progress after stepped => ?_) fun failure after stuck => ?_
  · cases stepped with
    | safepoint there kind polls =>
      simp only [stepWrites, there, kind]
      cases polls with
      | passed => exact .refl _
      | polled _ answer | interrupted _ answer =>
        obtain rfl : core.device = _ := congrArg Prod.snd answer
        exact .refl _
    | insn there kind named tries =>
      rw [stepWrites_executes there kind named]
      cases tries with
      | faulted ran =>
        have worked := (DataSide.execute_worked fetching _ _).answer ran
        exact worked
      | retired ran departs =>
        have worked := (DataSide.execute_worked fetching _ _).answer ran
        cases departs <;> exact worked
    | exit there kind =>
      simp only [stepWrites, there, kind]
      exact .refl _
  · cases stuck with
    | malformed => exact ⟨[], .refl _⟩
    | insn _ _ _ failed => exact ⟨[], (DataSide.execute_worked fetching _ _).failure failed⟩

theorem runFrom_worked (fuel : Nat) : ∀ {cursor core}, core.device.engine.fetchFrame = some frame →
    Ends (runFrom code (DataSide.codeBus space frame codeFrames) entry fuel cursor) core
      (fun _ after => core.device.engine.Worked
        (writesFrom space code (DataSide.codeBus space frame codeFrames) entry fuel cursor core) after.device.engine)
      fun _ after => ∃ writes, core.device.engine.Worked writes after.device.engine := by
  induction fuel with
  | zero => exact fun _ => ⟨[], .refl _⟩
  | succ fuel ih =>
    intro cursor core fetching
    unfold runFrom writesFrom
    rw [ends_bind]
    refine .intro (fun progress middle ran => ?_) fun _ after failed => (step_worked fetching cursor).failure failed
    have worked := (step_worked fetching cursor).answer ran
    rw [ran]
    cases progress with
    | left exit => exact worked
    | further next =>
      refine (ih (worked.fetch.trans fetching)).mono ?_ ?_
      · exact fun _ _ later => worked.trans later
      · rintro _ _ ⟨writes, later⟩
        exact ⟨_, worked.trans later⟩

end ThreadedCode

theorem Engine.fetchInsn_reads (space : AddressSpace) (pc : Word) (pa : Nat) (first : Bool) (engine : Engine) :
    Ends (fetchInsn space pc pa first) engine (fun _ after => after = engine) fun _ after => after = engine := by
  have high : ∀ crosses low pa, Ends (fetchHigh pc crosses low pa) engine (fun _ after => after = engine)
      fun _ after => after = engine := by
    intro crosses low pa
    unfold fetchHigh
    rw [ends_bind, ends_readRam]
    refine ⟨fun answer _ => ?_, fun _ _ => rfl⟩
    cases answer <;> exact rfl
  unfold fetchInsn
  rw [ends_bind, ends_readRam]
  refine ⟨fun answer _ => ?_, fun _ _ => rfl⟩
  cases answer with
  | error range => exact rfl
  | ok low =>
    dsimp only
    split
    · exact rfl
    · split
      · cases space .fetch (pc + 2) with
        | some place => exact high ..
        | none =>
          dsimp only
          split
          · exact rfl
          · exact rfl
      · rw [ends_bind, ends_ofExcept]
        exact ⟨fun _ _ => high .., fun _ _ => rfl⟩

namespace LoopM

variable {core : Core Engine}

def writesOne (space : AddressSpace) (frame : Nat) (pc : Word) (pa n : Nat) (core : Core Engine) : List (Nat × Nat) :=
  match Engine.fetchInsn space pc pa (n = 0) core.device with
  | .ok (.insn insn _) fetched =>
    insn.wrote space (DataSide.codeBus space frame []).toBus pc ⟨core.hart, ⟨fetched, false⟩⟩
  | _ => []

def writesFrom (space : AddressSpace) (frame : Nat) : Nat → Word → Nat → Nat → Core Engine → List (Nat × Nat)
  | 0, pc, pa, n, core => writesOne space frame pc pa n core
  | more + 1, pc, pa, n, core =>
    match interpretOne space frame pc pa n core with
    | .ok (.further next len) after =>
      match checkedAdd pa len with
      | .ok pa' =>
        if Page.frame pa' ≠ frame then writesOne space frame pc pa n core
        else writesFrom space frame more next pa' (n + 1) after ++ writesOne space frame pc pa n core
      | .error _ => writesOne space frame pc pa n core
    | _ => writesOne space frame pc pa n core

theorem executeOne_told (tells : core.device.Tells frame told) (insn : Instruction) (pc : Word) :
    Ends (executeOne space frame insn pc) core
      (fun _ after => told
        (insn.wrote space (DataSide.codeBus space frame []).toBus pc ⟨core.hart, ⟨core.device, false⟩⟩) after.device)
      fun _ after => after.device = core.device := by
  have executed : Ends (execute (DataSide.codeBus space frame []).toBus insn pc) ⟨core.hart, ⟨core.device, false⟩⟩ _ _ :=
    DataSide.execute_wrote tells insn pc
  refine (executeOne_executes space frame insn pc core).mono (fun answer after executes => ?_) ?_
  · cases executes with
    | quiet ran => exact executed.answer ran
    | reported _ ran => exact tells.reported _ _ _ (executed.answer ran)
  · rintro _ _ ⟨side, failed, rfl⟩
    exact executed.failure failed

theorem interpretOne_told (tells : core.device.Tells frame told) (pc : Word) (pa n : Nat) :
    Ends (interpretOne space frame pc pa n) core
      (fun _ after => told (writesOne space frame pc pa n core) after.device)
      fun _ after => after.device = core.device := by
  have reads := Engine.fetchInsn_reads space pc pa (n = 0) core.device
  have executed : ∀ insn, Ends (executeOne space frame insn pc) core _ _ := fun insn => executeOne_told tells insn pc
  refine (interpretOne_interprets space frame pc pa n core).mono (fun answer after one => ?_) fun _ after fails => ?_
  · unfold writesOne
    cases one with
    | unfetched fetched | stopped fetched =>
      cases reads.answer fetched
      rw [fetched]
      exact tells.nothing
    | faulted fetched ran | last fetched ran | inner fetched ran =>
      cases reads.answer fetched
      have done := (executed _).answer ran
      rw [fetched]
      exact done
  · cases fails with
    | fetch failed => exact reads.failure failed
    | insn fetched failed =>
      cases reads.answer fetched
      exact (executed _).failure failed

theorem writesFrom_ended {more insns : Nat} {step : Step} {after : Core Engine}
    (one : interpretOne space frame pc pa n core = .ok (.over insns step) after) :
    writesFrom space frame more pc pa n core = writesOne space frame pc pa n core := by
  cases more with
  | zero => rfl
  | succ more => rw [writesFrom, one]

theorem writesFrom_beyond {more len pa' : Nat} {next : Word} {after : Core Engine}
    (one : interpretOne space frame pc pa n core = .ok (.further next len) after) (added : checkedAdd pa len = .ok pa')
    (other : Page.frame pa' ≠ frame) :
    writesFrom space frame (more + 1) pc pa n core = writesOne space frame pc pa n core := by
  rw [writesFrom, one]
  simp only [added, if_pos other]

theorem writesFrom_onward {more len pa' : Nat} {next : Word} {after : Core Engine}
    (one : interpretOne space frame pc pa n core = .ok (.further next len) after) (added : checkedAdd pa len = .ok pa')
    (same : Page.frame pa' = frame) : writesFrom space frame (more + 1) pc pa n core =
      writesFrom space frame more next pa' (n + 1) after ++ writesOne space frame pc pa n core := by
  rw [writesFrom, one]
  simp only [added, if_neg (fun other : Page.frame pa' ≠ frame => other same)]

theorem interpretFrom_told {told : Engine → List (Nat × Nat) → Engine → Prop} {fetches : Engine → Prop}
    (tells : ∀ engine, fetches engine → engine.Tells frame (told engine))
    (keeps : ∀ {engine writes after}, told engine writes after → fetches engine → fetches after)
    (trans : ∀ {engine writes middle later after}, told engine writes middle → told middle later after →
      told engine (later ++ writes) after) (more : Nat) {core : Core Engine} (fetching : fetches core.device) :
    Ends (interpretFrom space frame more pc pa n) core
      (fun _ after => told core.device (writesFrom space frame more pc pa n core) after.device)
      fun _ after => ∃ writes, told core.device writes after.device := by
  have did : ∀ {pc pa n answer} {core after : Core Engine}, fetches core.device →
      interpretOne space frame pc pa n core = .ok answer after →
        told core.device (writesOne space frame pc pa n core) after.device :=
    fun fetching one => (interpretOne_told (tells _ fetching) _ _ _).answer one
  refine (interpretFrom_interprets space frame more pc pa n core).mono (fun answer after interprets => ?_)
    fun failure after fails => ?_
  · induction interprets with
    | ended one =>
      rw [writesFrom_ended one]
      exact did fetching one
    | full one => exact did fetching one
    | beyond one added other =>
      rw [writesFrom_beyond one added other]
      exact did fetching one
    | onward one added same _ ih =>
      rw [writesFrom_onward one added same]
      exact trans (did fetching one) (ih (keeps (did fetching one) fetching))
  · induction fails with
    | one failed =>
      have same := (interpretOne_told (tells _ fetching) _ _ _).failure failed
      exact ⟨[], same ▸ (tells _ fetching).nothing⟩
    | address one => exact ⟨_, did fetching one⟩
    | onward one _ _ _ ih =>
      obtain ⟨writes, later⟩ := ih (keeps (did fetching one) fetching)
      exact ⟨_, trans (did fetching one) later⟩

theorem interpretFrom_worked (more : Nat) (fetching : core.device.fetchFrame = some frame) :
    Ends (interpretFrom space frame more pc pa n) core
      (fun _ after => core.device.Worked (writesFrom space frame more pc pa n core) after.device)
      fun _ after => ∃ writes, core.device.Worked writes after.device :=
  interpretFrom_told (fun _ fetching => Engine.Worked.tells fetching) (fun worked fetching => worked.fetch.trans fetching)
    (fun first second => first.trans second) more fetching

end LoopM
end TieredHart
