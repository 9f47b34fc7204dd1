import TieredHart.Proofs.Accesses
import TieredHart.Proofs.StepCases

namespace TieredHart

inductive Plain.Steps (space : AddressSpace) (start : Core Ram) : Core Ram → Prop where
  | refl : Steps space start start
  | step {core core' : Core Ram} (before : Steps space start core) (ran : Plain.step space core = .ok (.ok ()) core') :
      Steps space start core'

theorem Plain.Steps.trans {space : AddressSpace} {start middle core : Core Ram} (first : Steps space start middle)
    (second : Steps space middle core) : Steps space start core := by
  induction second with
  | refl => exact first
  | step _ ran ih => exact ih.step ran

def Core.plain (core : Core Engine) : Core Ram := ⟨core.hart, core.device.ram⟩

def Step.Retraced (space : AddressSpace) (start : Core Ram) (step : Step) (after : Core Ram) : Prop :=
  match step with
  | .next _ => Plain.Steps space start after
  | .fault raised => ∃ core, Plain.Steps space start core ∧ Plain.step space core = .ok (.error raised) after

def AddressSpace.Leads (space : AddressSpace) (pc : Word) (pa : Nat) : Prop :=
  pc.toNat % 2 = 0 ∧ ∃ place, space .fetch pc = some place ∧ place.pa = pa

-- A block ran. The plain machine follows if no page of memory is cut in two.
structure Step.Ran (space : AddressSpace) (start : Core Engine) (step : Step) (after : Core Engine) : Prop where
  onward : start.device.Onward after.device
  retraced : start.device.ram.base % 4096 = 0 → step.Retraced space start.plain after.plain
  chain : ∀ pa, step = .next (some pa) → space.Leads after.hart.pc pa

namespace Step.Ran

variable {space : AddressSpace} {start middle after : Core Engine} {step : Step}

theorem nothing (sound : start.device.Sound) : (Step.next none).Ran space start start :=
  ⟨.refl sound, fun _ => .refl, nofun⟩

theorem fault {raised : Fault} (onward : start.device.Onward after.device)
    (ran : Plain.step space start.plain = .ok (.error raised) after.plain) : (Step.fault raised).Ran space start after :=
  ⟨onward, fun _ => ⟨_, .refl, ran⟩, nofun⟩

theorem later (onward : start.device.Onward middle.device) (ran : Plain.step space start.plain = .ok (.ok ()) middle.plain)
    (rest : step.Ran space middle after) : step.Ran space start after := by
  refine ⟨onward.trans rest.onward, fun aligned => ?_, rest.chain⟩
  have first : Plain.Steps space start.plain middle.plain := .step .refl ran
  have retraced := rest.retraced (onward.evolves.base.symm ▸ aligned)
  cases step with
  | next chain => exact first.trans retraced
  | fault raised =>
    obtain ⟨core, steps, faulted⟩ := retraced
    exact ⟨core, first.trans steps, faulted⟩

theorem prepared (ran : step.Ran space middle after) (quiet : start.device.Quiet middle.device)
    (hart : middle.hart = start.hart) : step.Ran space start after := by
  refine ⟨quiet.onward.trans ran.onward, fun aligned => ?_, ran.chain⟩
  have retraced := ran.retraced (quiet.ram.symm ▸ aligned)
  unfold Core.plain at retraced ⊢
  rw [quiet.ram, hart] at retraced
  exact retraced

theorem aside (ran : step.Ran space start after) {engine : Engine} (quiet : after.device.Quiet engine) :
    step.Ran space start ⟨after.hart, engine⟩ := by
  refine ⟨ran.onward.trans quiet.onward, fun aligned => ?_, ran.chain⟩
  have retraced := ran.retraced aligned
  unfold Core.plain at retraced ⊢
  rw [quiet.ram]
  exact retraced

end Step.Ran

def Fetched.Explained (space : AddressSpace) (ram : Ram) (pc : Word) (pa : Nat) : Fetched → Prop
  | .insn decoded crosses => decoded.Legal ∧ Plain.fetch space ram pc = .ok (.ok decoded) ∧
      (crosses = false → ram.Holds pa decoded.len)
  | .stop => True
  | .fault raised => Plain.fetch space ram pc = .ok (.error raised)

-- One instruction inside a block retired: the plain machine made the same step, and control went straight on.
structure Advanced (space : AddressSpace) (core : Core Engine) (pa : Nat) (after : Core Engine) (next : Word)
    (len : Nat) : Prop where
  onward : core.device.Onward after.device
  step : Plain.step space core.plain = .ok (.ok ()) after.plain
  pc : after.hart.pc = next
  straight : next = core.hart.pc + BitVec.ofNat 64 len
  even : len % 2 = 0
  held : core.device.ram.Holds pa len

def Interpreted.Explained (space : AddressSpace) (core : Core Engine) (pa : Nat) (after : Core Engine) :
    Interpreted → Prop
  | .over _ step => step.Ran space core after
  | .further next len => Advanced space core pa after next len

variable {space : AddressSpace} {ram : Ram} {pc : Word} {pa : Nat} {insn : Instruction}

theorem checkedAdd_ok {a b sum : Nat} (added : checkedAdd a b = .ok sum) : sum = a + b := by
  unfold checkedAdd at added
  split at added
  · exact (Except.ok.inj added).symm
  · cases added

namespace AddressSpace.Leads

theorem even (leads : space.Leads pc pa) (granular : space.Granular) : pa % 2 = 0 := by
  obtain ⟨even, place, found, rfl⟩ := leads
  have offset := granular.offset _ _ _ found
  omega

theorem toNat_next (granular : space.Granular) (leads : space.Leads pc pa) {len : Nat}
    (same : Page.frame (pa + len) = Page.frame pa) : (pc + BitVec.ofNat 64 len).toNat = pc.toNat + len := by
  obtain ⟨-, place, found, rfl⟩ := leads
  have offset := granular.offset _ _ _ found
  have range := pc.isLt
  unfold Page.frame at same
  rw [BitVec.toNat_add, BitVec.toNat_ofNat]
  omega

theorem page_next (granular : space.Granular) (leads : space.Leads pc pa) {len : Nat}
    (same : Page.frame (pa + len) = Page.frame pa) : (pc + BitVec.ofNat 64 len).page = pc.page := by
  have sum := leads.toNat_next granular same
  obtain ⟨-, place, found, rfl⟩ := leads
  have offset := granular.offset _ _ _ found
  unfold Page.frame at same
  unfold Word.page
  omega

theorem next (granular : space.Granular) (leads : space.Leads pc pa) {len : Nat} (even : len % 2 = 0)
    (same : Page.frame (pa + len) = Page.frame pa) : space.Leads (pc + BitVec.ofNat 64 len) (pa + len) := by
  have sum := leads.toNat_next granular same
  have page := leads.page_next granular same
  obtain ⟨evenPc, place, found, rfl⟩ := leads
  have offset := granular.offset _ _ _ found
  obtain ⟨other, known, there⟩ := granular.same_page found page
  refine ⟨by omega, other, known, ?_⟩
  unfold Page.frame at same
  unfold Page.base Word.pageOffset at there
  omega

end AddressSpace.Leads

namespace Engine

variable {engine : Engine}

theorem ofBytes_explained {bytes : List UInt8} {crosses : Bool}
    (fetched : Plain.fetch space ram pc = .ok (Instruction.decode bytes))
    (inside : ∀ insn, Instruction.decode bytes = .ok insn → crosses = false → ram.Holds pa insn.len) :
    (Fetched.ofBytes crosses bytes).Explained space ram pc pa := by
  unfold Fetched.ofBytes
  cases decoded : Instruction.decode bytes with
  | ok insn =>
    rw [decoded] at fetched
    exact ⟨Instruction.decode_legal decoded, fetched, inside insn decoded⟩
  | error fault =>
    rw [decoded] at fetched
    exact fetched

theorem fetchHigh_explained {low : List UInt8} {crosses : Bool} {upper : Nat}
    (fetched : Plain.fetch space engine.ram pc = Plain.fetchHigh engine.ram pc low upper)
    (inside : crosses = false → engine.ram.Holds upper 2 → engine.ram.Holds pa 4) :
    Ends (fetchHigh pc crosses low upper) engine
      (fun fetched after => after = engine ∧ fetched.Explained space engine.ram pc pa)
      fun _ _ => ¬ engine.ram.Fits := by
  unfold fetchHigh
  unfold Plain.fetchHigh at fetched
  rw [ends_bind, ends_readRam]
  refine ⟨fun answer got => ?_, fun failure failed => Ram.read_error failed⟩
  rw [got] at fetched
  cases answer with
  | error range => exact ⟨rfl, fetched⟩
  | ok high =>
    refine ⟨rfl, ofBytes_explained fetched fun insn decoded whole => ?_⟩
    obtain ⟨-, holds, -⟩ := Ram.read_ok got
    have all := inside whole holds
    have len := (Instruction.decode_legal decoded).len
    unfold Ram.Holds at all ⊢
    omega

theorem fetchInsn_explained (granular : space.Granular) (leads : space.Leads pc pa) (first : Bool) :
    Ends (fetchInsn space pc pa first) engine
      (fun fetched after => after = engine ∧ fetched.Explained space engine.ram pc pa)
      fun _ _ => ¬ engine.ram.Fits := by
  obtain ⟨even, place, found, rfl⟩ := leads
  have offset := granular.offset _ _ _ found
  unfold fetchInsn
  rw [ends_bind, ends_readRam]
  refine ⟨fun answer got => ?_, fun failure failed => Ram.read_error failed⟩
  cases answer with
  | error range => exact ⟨rfl, Plain.fetch_refused even found got⟩
  | ok low =>
    have fetched := Plain.fetch_low even found got
    obtain ⟨fits, holds, rfl⟩ := Ram.read_ok got
    dsimp only
    by_cases short : Instruction.lengthOf (Bytes.value (engine.ram.readBytes place.pa 2)) = 2
    · rw [if_pos short] at fetched ⊢
      refine ⟨rfl, ofBytes_explained fetched fun insn decoded _ => ?_⟩
      have length := (Instruction.needs_of_decode decoded).1
      rw [Instruction.needs, Ram.readBytes_take (Nat.le_refl 2), short] at length
      exact length ▸ holds
    · rw [if_neg short] at fetched ⊢
      by_cases last : Page.offset place.pa = 4094
      · have atEnd : pc.pageOffset = 4094 := offset.symm.trans last
        rw [if_pos atEnd] at fetched
        rw [if_pos last]
        cases next : space .fetch (pc + 2) with
        | some location =>
          rw [next] at fetched
          exact fetchHigh_explained fetched fun crosses => by cases crosses
        | none =>
          rw [next] at fetched
          cases first with
          | true => exact ⟨rfl, fetched⟩
          | false => exact ⟨rfl, trivial⟩
      · have inner : pc.pageOffset ≠ 4094 := fun atEnd => last (offset.trans atEnd)
        rw [if_neg inner] at fetched
        rw [if_neg last]
        unfold Ram.Holds at holds
        unfold Ram.Fits at fits
        have adds : checkedAdd place.pa 2 = .ok (place.pa + 2) := if_pos (by omega)
        rw [ends_bind, adds, ends_ofExcept_ok]
        refine fetchHigh_explained fetched fun _ high => ?_
        unfold Ram.Holds at high ⊢
        omega

end Engine

theorem Attempted.inner {σ : Type} {bus : Bus σ} {core core' : Core σ} {answer : Except Fault Flow}
    (attempted : Attempted bus insn pc core answer core') :
    ∀ flow, answer = .ok flow → insn.isTerminal = false → flow = .next := by
  intro flow retired inner
  apply attempted.straight flow retired
  simpa [Instruction.isTerminal] using inner

namespace LoopM

variable {core : Core Engine}

theorem executeOne_straight (core : Core Engine) (insn : Instruction) (pc : Word) (frame : Nat) :
    Ends (executeOne space frame insn pc) core
      (fun answer _ => ∀ flow, answer = .ok flow → insn.isTerminal = false → flow = .next) fun _ _ => True := by
  refine (executeOne_executes space frame insn pc core).mono (fun answer after executes => ?_) fun _ _ _ => trivial
  cases executes with
  | quiet ran | reported _ ran => exact ((execute_attempted _ insn pc _).answer ran).inner

theorem executeOne_retraced (granular : space.Granular) (sound : core.device.Sound) (legal : insn.Legal) (frame : Nat) :
    Ends (executeOne space frame insn core.hart.pc) core
      (fun answer after => core.device.Onward after.device ∧
        execute (Plain.bus space) insn core.hart.pc core.plain = .ok answer after.plain ∧
        ∀ flow, answer = .ok flow → insn.isTerminal = false → flow = .next)
      fun failure _ => Excused core.device.ram space failure := by
  have shadows : Core.Shadows (DataSide.Serves core.device []) core.hart.pc ⟨core.hart, ⟨core.device, false⟩⟩ core.plain :=
    ⟨rfl, .refl sound, rfl, nofun⟩
  have matched := execute_matches (DataSide.codeBus_follows granular core.device frame []) legal core.hart.pc
    core.hart.pc _ _ shadows
  have retraced : ∀ {answer side},
      execute (DataSide.codeBus space frame []).toBus insn core.hart.pc ⟨core.hart, ⟨core.device, false⟩⟩ = .ok answer side →
        core.device.Onward side.device.engine ∧
          execute (Plain.bus space) insn core.hart.pc core.plain = .ok answer (Core.plain ⟨side.hart, side.device.engine⟩) ∧
          ∀ flow, answer = .ok flow → insn.isTerminal = false → flow = .next := by
    intro answer side ran
    obtain ⟨pcSame, shadow, plainRan, hart, serves⟩ := matched.answer ran
    have after : shadow = Core.plain ⟨side.hart, side.device.engine⟩ := by
      cases shadow
      cases serves.ram
      dsimp only at hart
      rw [hart, ← pcSame]
      rfl
    rw [after] at plainRan
    exact ⟨serves.onward, plainRan, ((execute_attempted _ insn core.hart.pc _).answer ran).inner⟩
  refine (executeOne_executes space frame insn core.hart.pc core).mono (fun answer after executes => ?_) ?_
  · cases executes with
    | quiet ran => exact retraced ran
    | reported _ ran =>
      obtain ⟨onward, plainRan, straight⟩ := retraced ran
      exact ⟨onward.trans (onward.sound.reported rfl).onward, plainRan, straight⟩
  · rintro failure _ ⟨side, failed, -⟩
    exact matched.failure failed

theorem interpretOne_explained (granular : space.Granular) (sound : core.device.Sound)
    (leads : space.Leads core.hart.pc pa) (frame n : Nat) :
    Ends (interpretOne space frame core.hart.pc pa n) core
      (fun answer after => answer.Explained space core pa after) fun failure _ => Excused core.device.ram space failure := by
  have found : Ends (Engine.fetchInsn space core.hart.pc pa (n = 0)) core.device _ _ :=
    Engine.fetchInsn_explained granular leads _
  have executed : ∀ {insn : Instruction}, insn.Legal → Ends (executeOne space frame insn core.hart.pc) core _ _ :=
    fun legal => executeOne_retraced granular sound legal frame
  have step : ∀ {insn : Instruction} {flow : Flow} {after : Core Engine},
      Plain.fetch space core.plain.device core.plain.hart.pc = .ok (.ok insn) →
      execute (Plain.bus space) insn core.plain.hart.pc core.plain = .ok (.ok flow) after.plain →
        Plain.step space core.plain = .ok (.ok ()) (after.atPc (flow.target core.hart.pc insn.len)).plain :=
    fun here ran => Plain.step_executed here ran
  refine (interpretOne_interprets space frame core.hart.pc pa n core).mono (fun answer after one => ?_)
    fun failure after fails => ?_
  · cases one with
    | unfetched fetched =>
      obtain ⟨rfl, explained⟩ := found.answer fetched
      have unfetched : Plain.fetch space core.plain.device core.plain.hart.pc = .ok (.error _) := explained
      exact Step.Ran.fault (.refl sound) (Plain.step_unfetched unfetched)
    | stopped fetched =>
      obtain ⟨rfl, -⟩ := found.answer fetched
      exact Step.Ran.nothing sound
    | faulted fetched ran =>
      obtain ⟨rfl, legal, here, -⟩ := found.answer fetched
      obtain ⟨onward, plainRan, -⟩ := (executed legal).answer ran
      exact Step.Ran.fault onward (Plain.step_faulted here plainRan)
    | @last insn _ _ flow after fetched ran =>
      obtain ⟨rfl, legal, here, -⟩ := found.answer fetched
      obtain ⟨onward, plainRan, -⟩ := (executed legal).answer ran
      have moved : core.device.Onward (after.atPc (flow.target core.hart.pc insn.len)).device := onward
      exact Step.Ran.later moved (step here plainRan) (.nothing moved.sound)
    | @inner insn _ _ flow after fetched ran continues =>
      obtain ⟨rfl, legal, here, inside⟩ := found.answer fetched
      obtain ⟨onward, plainRan, straight⟩ := (executed legal).answer ran
      obtain ⟨inner, whole⟩ := Bool.or_eq_false_iff.mp continues
      cases straight flow rfl inner
      have even : insn.len % 2 = 0 := by rcases legal.len with short | long <;> omega
      exact ⟨onward, step here plainRan, rfl, rfl, even, inside whole⟩
  · cases fails with
    | fetch failed => exact .inl (found.failure failed)
    | insn fetched failed =>
      obtain ⟨rfl, legal, -⟩ := found.answer fetched
      exact (executed legal).failure failed

theorem Interprets.ran {frame more n : Nat} {answer : Nat × Step} {after : Core Engine} (granular : space.Granular)
    (interprets : Interprets space frame more pc pa n core answer after) : core.device.Sound → core.hart.pc = pc →
      space.Leads pc pa → Page.frame pa = frame → answer.2.Ran space core after := by
  induction interprets with
  | ended one =>
    rintro sound rfl leads -
    exact (interpretOne_explained granular sound leads frame _).answer one
  | full one | beyond one =>
    rintro sound rfl leads -
    obtain ⟨onward, step, -⟩ := (interpretOne_explained granular sound leads frame _).answer one
    exact .later onward step (.nothing onward.sound)
  | onward one added same _ ih =>
    rintro sound rfl leads onFrame
    obtain ⟨onward, step, moved, rfl, even, -⟩ := (interpretOne_explained granular sound leads frame _).answer one
    cases checkedAdd_ok added
    exact .later onward step (ih onward.sound moved (leads.next granular even (same.trans onFrame.symm)) same)

theorem Fails.excused {frame more n : Nat} {failure : Failure} {after : Core Engine} (granular : space.Granular)
    (fails : Fails space frame failure more pc pa n core after) : core.device.Sound → core.hart.pc = pc →
      space.Leads pc pa → Page.frame pa = frame → Excused core.device.ram space failure := by
  induction fails with
  | one failed =>
    rintro sound rfl leads -
    exact (interpretOne_explained granular sound leads frame _).failure failed
  | address one failed =>
    rintro sound rfl leads -
    have held := ((interpretOne_explained granular sound leads frame _).answer one).held
    refine .inl fun fits => ?_
    unfold Ram.Holds at held
    unfold Ram.Fits at fits
    unfold checkedAdd at failed
    rw [if_pos (by omega)] at failed
    cases failed
  | onward one added same _ ih =>
    rintro sound rfl leads onFrame
    obtain ⟨onward, -, moved, rfl, even, -⟩ := (interpretOne_explained granular sound leads frame _).answer one
    cases checkedAdd_ok added
    exact (ih onward.sound moved (leads.next granular even (same.trans onFrame.symm)) same).earlier onward.evolves

theorem interpretFrom_ran (granular : space.Granular) {frame more : Nat} (n : Nat) (sound : core.device.Sound)
    (leads : space.Leads core.hart.pc pa) (onFrame : Page.frame pa = frame) :
    Ends (interpretFrom space frame more core.hart.pc pa n) core (fun answer after => answer.2.Ran space core after)
      fun failure _ => Excused core.device.ram space failure :=
  (interpretFrom_interprets space frame more core.hart.pc pa n core).mono
    (fun _ _ interprets => interprets.ran granular sound rfl leads onFrame)
    fun _ _ fails => fails.excused granular sound rfl leads onFrame

theorem runInterpreted_ran (core : Core Engine) (granular : space.Granular) (sound : core.device.Sound)
   (leads : space.Leads core.hart.pc pa) :
    Ends (runInterpreted space pa) core (fun step after => step.Ran space core after)
      fun failure _ => Excused core.device.ram space failure := by
  unfold runInterpreted
  rw [ends_bind, ends_get, ends_bind]
  refine (interpretFrom_ran granular 0 sound leads rfl).weaken ?_
  rintro ⟨n, step⟩ after ran
  have counted := ran.onward.sound.counted fun counts =>
    { counts with interpBlocks := counts.interpBlocks + 1, interpInsns := counts.interpInsns + n }
  exact ran.aside (counted.trans (counted.sound.reported rfl))

end LoopM
end TieredHart
