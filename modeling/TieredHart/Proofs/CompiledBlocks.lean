import TieredHart.Engine.Dispatch
import TieredHart.Proofs.Interpretation

namespace TieredHart

-- A hart before a block that was built for the address it is at. The second frame is where the next page leads now.
structure Block.Ready (space : AddressSpace) (start : Core Engine) (pa : Nat) (block : Block) (code : Array UInt8)
    (taken : Snapshot) (maxInsns : Nat) : Prop where
  sound : start.device.Sound
  leads : space.Leads start.hart.pc pa
  built : block.Built start.device.ram start.device.cache code taken maxInsns
  entry : block.entryPa = pa
  live : ∀ page ∈ block.stamp.pages, start.device.cache.frames.version page.frame = page.version
  covered : start.device.ram.base % 4096 = 0 → ∀ page, block.stamp.second = some page →
    start.device.cache.frames.covers page.frame = true
  second : ∀ page, block.stamp.second = some page →
    ∃ place, space .fetch start.hart.pc.nextPage = some place ∧ Page.frame place.pa = page.frame

def Core.shown (core : Core DataSide) : Core Ram := ⟨core.hart, core.device.engine.ram⟩

structure Midway (space : AddressSpace) (start : Core Engine) (frames : List Nat) (pc : Word) (core : Core DataSide) :
    Prop where
  stays : core.device.exit = false
  serves : DataSide.Serves start.device frames core.device core.device.engine.ram
  steps : start.device.ram.base % 4096 = 0 → Plain.Steps space start.plain (core.atPc pc).shown

theorem Word.nextPage_aligned (pc : Word) : pc.nextPage.toNat % 4096 = 0 := by
  unfold Word.nextPage
  rw [BitVec.toNat_ofNat]
  omega

theorem Word.nextPage_of_last {pc other : Word} (same : other.page = pc.page) (last : other.pageOffset = 4094) :
    other + 2 = pc.nextPage := by
  unfold Word.page at same
  unfold Word.pageOffset at last
  unfold Word.nextPage
  apply BitVec.eq_of_toNat_eq
  rw [BitVec.toNat_add, BitVec.toNat_ofNat, ← same]
  have two : (2 : Word).toNat = 2 := rfl
  rw [two]
  omega

variable {space : AddressSpace} {start : Core Engine} {pa : Nat} {block : Block} {code : Array UInt8} {taken : Snapshot}
  {maxInsns : Nat} {core core' : Core DataSide} {k o : Nat} {insn : Instruction}

theorem Midway.attempt {frames : List Nat} {pc : Word} (midway : Midway space start frames pc core)
    (granular : space.Granular) (legal : insn.Legal) (frame : Nat) :
    Ends (execute (DataSide.codeBus space frame frames).toBus insn pc) core
      (fun answer core' => DataSide.Serves start.device frames core'.device core'.device.engine.ram ∧
        execute (Plain.bus space) insn pc (core.atPc pc).shown = .ok answer (core'.atPc pc).shown)
      fun failure _ => Excused start.device.ram space failure := by
  have shadows : Core.Shadows (DataSide.Serves start.device frames) pc core (core.atPc pc).shown := ⟨rfl, midway.serves⟩
  refine (execute_matches (DataSide.codeBus_follows granular start.device frame frames) legal pc pc _ _ shadows).weaken ?_
  rintro answer core' ⟨-, shadow, ran, hart, serves⟩
  have after : shadow = (core'.atPc pc).shown := by
    cases shadow
    cases serves.ram
    cases hart
    rfl
  subst after
  exact ⟨serves, ran⟩

namespace Block.Ready

-- The block has what memory has, as long as none of its frames was written.
theorem fetched (ready : block.Ready space start pa code taken maxInsns) (granular : space.Granular)
    (midway : Midway space start block.stamp.frames (start.hart.pc + BitVec.ofNat 64 o) core)
    (there : (Body.scan taken maxInsns).insns[k]? = some (o, insn)) (aligned : start.device.ram.base % 4096 = 0) :
    Plain.fetch space (core.atPc (start.hart.pc + BitVec.ofNat 64 o)).shown.device
      (core.atPc (start.hart.pc + BitVec.ofNat 64 o)).shown.hart.pc = .ok (.ok insn) := by
  have scanned := Body.scan_scanned taken maxInsns
  have evolves := midway.serves.onward.evolves
  have tracks := ready.built.tracks.evolves ready.sound.framed evolves
  have live : ∀ page ∈ block.stamp.pages, core.device.engine.cache.frames.version page.frame = page.version :=
    fun page stamped => (midway.serves.still midway.stays _ (List.mem_map.mpr ⟨page, stamped, rfl⟩)).trans
      (ready.live page stamped)
  have covered : ∀ page, block.stamp.second = some page → core.device.engine.cache.frames.covers page.frame = true :=
    fun page stamped => (evolves.covers _).trans (ready.covered aligned page stamped)
  rw [ready.built.stamp] at live covered
  have encodes := tracks.encodes scanned there live covered
  have inside := (List.getElem?_eq_some_iff.mp there).1
  have starts := (scanned.line k o insn there).starts
  have even := (scanned.offsets (Nat.le_of_lt inside)).2.2
  rw [Body.offsetAt_of there] at even
  have onFrame : Page.frame (pa + o) = Page.frame pa := by
    rw [← ready.entry, ready.built.entryPa]
    unfold Page.rest Page.offset at starts
    unfold Page.frame
    omega
  obtain ⟨evenPc, place, found, offset⟩ := ready.leads.next granular even onFrame
  rw [← ready.built.entryPa, ready.entry, ← offset] at encodes
  show Plain.fetch space core.device.engine.ram (start.hart.pc + BitVec.ofNat 64 o) = .ok (.ok insn)
  refine Plain.fetch_encoded granular evenPc found encodes ?_
  intro page stamped last
  rw [← ready.built.stamp] at stamped
  obtain ⟨next, known, frame⟩ := ready.second page stamped
  have offset := (granular.offset _ _ _ known).trans start.hart.pc.nextPage_aligned
  rw [Word.nextPage_of_last (ready.leads.page_next granular onFrame) last]
  refine ⟨next, known, ?_⟩
  unfold Page.frame at frame
  omega

theorem retired (ready : block.Ready space start pa code taken maxInsns) (granular : space.Granular)
    (midway : Midway space start block.stamp.frames (start.hart.pc + BitVec.ofNat 64 o) core)
    (there : (Body.scan taken maxInsns).insns[k]? = some (o, insn)) {flow : Flow}
    (ran : execute (DataSide.codeBus space (Page.frame pa) block.stamp.frames).toBus insn
      (start.hart.pc + BitVec.ofNat 64 o) core = .ok (.ok flow) core') :
    DataSide.Serves start.device block.stamp.frames core'.device core'.device.engine.ram ∧
    (start.device.ram.base % 4096 = 0 → Plain.Steps space start.plain
      (core'.atPc (flow.target (start.hart.pc + BitVec.ofNat 64 o) insn.len)).shown) := by
  have line := (Body.scan_scanned taken maxInsns).line k o insn there
  obtain ⟨serves, plainRan⟩ := (midway.attempt granular (Instruction.decode_legal line.decoded) _).answer ran
  refine ⟨serves, fun aligned => (midway.steps aligned).step ?_⟩
  exact Plain.step_executed (ready.fetched granular midway there aligned) plainRan

theorem keeps (ready : block.Ready space start pa code taken maxInsns) (granular : space.Granular) :
    ThreadedCode.Keeps (DataSide.codeBus space (Page.frame pa) block.stamp.frames) (Body.scan taken maxInsns)
      ⟨start.hart.pc, pa⟩ fun _ => Midway space start block.stamp.frames := by
  constructor
  · intro n pc core device midway polled
    have same : core.device = device := congrArg Prod.snd polled
    subst same
    exact ⟨midway.stays, midway.serves, midway.steps⟩
  · intro n k o insn core flow core' there midway ran stays
    obtain ⟨serves, steps⟩ := ready.retired granular midway there ran
    exact ⟨stays, serves, steps⟩

end Block.Ready

def CodeExit.outcome (exit : CodeExit) : Step :=
  match exit.cause with
  | .fallthrough => .next exit.chain
  | .exception fault => .fault fault
  | .interrupt | .toInterpreter => .next none

theorem AddressSpace.Leads.chain {entry : Entry} {target : Word} {goal : Nat} (leads : space.Leads entry.pc entry.pa)
    (granular : space.Granular) (even : target.toNat % 2 = 0) (known : ThreadedCode.chain? entry target = some goal) :
    space.Leads target goal := by
  obtain ⟨page, rfl⟩ := ThreadedCode.chain_some known
  obtain ⟨-, place, found, offset⟩ := leads
  obtain ⟨other, known', there⟩ := granular.same_page found page
  exact ⟨even, other, known', by rw [there, offset]⟩

theorem Word.even_add {pc : Word} {o : Nat} (evenPc : pc.toNat % 2 = 0) (even : o % 2 = 0) :
    (pc + BitVec.ofNat 64 o).toNat % 2 = 0 := by
  rw [BitVec.toNat_add, BitVec.toNat_ofNat]
  omega

theorem Word.even_jump {pc : Word} {imm : Int} (evenPc : pc.toNat % 2 = 0) (even : imm % 2 = 0) :
    (pc + Word.ofImmediate imm).toNat % 2 = 0 := by
  unfold Word.ofImmediate
  rw [BitVec.toNat_add, BitVec.toNat_ofInt]
  omega

theorem Block.Ready.left (ready : block.Ready space start pa code taken maxInsns) (granular : space.Granular)
    {exit : CodeExit} {after : Core DataSide}
    (left : ThreadedCode.Left (DataSide.codeBus space (Page.frame pa) block.stamp.frames) (Body.scan taken maxInsns)
      ⟨start.hart.pc, pa⟩ (fun _ => Midway space start block.stamp.frames) exit after) :
    after.hart.pc = exit.nextPc ∧ exit.outcome.Ran space start ⟨after.hart, after.device.engine⟩ := by
  have scanned := Body.scan_scanned taken maxInsns
  have offsets : ∀ (k o : Nat) (insn : Instruction), (Body.scan taken maxInsns).insns[k]? = some (o, insn) →
      (start.hart.pc + BitVec.ofNat 64 o).toNat % 2 = 0 := by
    intro k o insn there
    have even := (scanned.offsets (Nat.le_of_lt (List.getElem?_eq_some_iff.mp there).1)).2.2
    rw [Body.offsetAt_of there] at even
    exact Word.even_add ready.leads.1 even
  cases left with
  | fault here there place ran =>
    subst place
    have legal := Instruction.decode_legal (scanned.line _ _ _ there).decoded
    obtain ⟨serves, plainRan⟩ := (here.attempt granular legal _).answer ran
    refine ⟨rfl, serves.onward, fun aligned => ⟨_, here.steps aligned, ?_⟩, nofun⟩
    exact Plain.step_faulted (ready.fetched granular here there aligned) plainRan
  | request here there place ran asked =>
    subst place
    obtain ⟨serves, steps⟩ := ready.retired granular here there ran
    exact ⟨rfl, serves.onward, steps, nofun⟩
  | interrupt here begun pending =>
    have same := congrArg Prod.snd pending
    subst same
    exact ⟨rfl, here.serves.onward, here.steps, nofun⟩
  | bottom here begun place =>
    refine ⟨rfl, here.serves.onward, here.steps, fun goal named => ?_⟩
    subst place
    have even := (scanned.offsets (Nat.le_refl _)).2.2
    rw [← Body.Scanned.guestLen_eq] at even
    exact AddressSpace.Leads.chain ready.leads granular (Word.even_add ready.leads.1 even) (Step.next.inj named)
  | jump here there place ran stays =>
    subst place
    obtain ⟨serves, steps⟩ := ready.retired granular here there ran
    refine ⟨rfl, serves.onward, steps, fun goal named => ?_⟩
    have known := Step.next.inj named
    dsimp only at known
    split at known
    · rename_i direct
      have legal := Instruction.decode_legal (scanned.line _ _ _ there).decoded
      rcases ((execute_attempted _ _ _ _).answer ran).branch _ rfl direct with next | jump
      · cases next
      · cases jump
        exact AddressSpace.Leads.chain ready.leads granular (Word.even_jump (offsets _ _ _ there) (legal.even direct)) known
    · cases known

theorem Engine.Sound.ready {engine : Engine} (sound : engine.Sound) {hart : Hart} (leads : space.Leads hart.pc pa)
    (member : block ∈ engine.cache.installed) (entry : block.entryPa = pa)
    (second : ∀ page, block.stamp.second = some page →
      ∃ place, space .fetch hart.pc.nextPage = some place ∧ Page.frame place.pa = page.frame) :
    ∃ code taken maxInsns, block.Ready space ⟨hart, engine⟩ pa code taken maxInsns := by
  obtain ⟨code, taken, maxInsns, built⟩ := sound.cache.built member
  exact ⟨code, taken, maxInsns, sound, leads, built, entry, sound.cache.live block member,
    fun aligned => sound.cache.second_covered sound.framed aligned member, second⟩

theorem Engine.Sound.used {engine : Engine} (sound : engine.Sound) (id : Nat) :
    engine.Quiet { engine with cache := engine.cache.markUsed id } :=
  ⟨sound.recached (Cache.markUsed_sheds _ id) rfl rfl, rfl⟩

theorem Block.Ready.used {hart : Hart} {engine : Engine} (ready : block.Ready space ⟨hart, engine⟩ pa code taken maxInsns)
    (id : Nat) : block.Ready space ⟨hart, { engine with cache := engine.cache.markUsed id }⟩ pa code taken maxInsns :=
  ⟨(ready.sound.used id).sound, ready.leads,
    ⟨ready.built.held, ready.built.tracks, ready.built.entryPa, ready.built.stamp, ready.built.guestLen, ready.built.filled,
      ready.built.laid⟩,
    ready.entry, ready.live, ready.covered, ready.second⟩

namespace LoopM

theorem tally_quiet {engine : Engine} (sound : engine.Sound) (pa : Nat) (exit : CodeExit) :
    Ends (do
      Engine.count fun counts =>
        { counts with compiledBlocks := counts.compiledBlocks + 1, compiledInsns := counts.compiledInsns + exit.insns }
      match exit.refusedCsr with
      | some csr => Engine.report (.refusedCsr csr exit.nextPc)
      | none => pure ()
      Engine.report (.ran pa exit)) engine
      (fun _ after => engine.Quiet after) fun _ _ => False := by
  have counted := sound.counted fun counts => { counts with
    compiledBlocks := counts.compiledBlocks + 1, compiledInsns := counts.compiledInsns + exit.insns }
  rw [ends_bind]
  cases exit.refusedCsr with
  | none => exact counted.trans (counted.sound.reported rfl)
  | some csr =>
    have untrapped : (Event.refusedCsr csr exit.nextPc).trap? = none := rfl
    have refused := counted.trans (counted.sound.reported untrapped)
    exact refused.trans (refused.sound.reported rfl)

-- A compiled block is a run of the plain machine.
theorem runCompiled_ran (granular : space.Granular) (fuel : Nat)
    (ready : block.Ready space start pa code taken maxInsns) :
    Ends (runCompiled fuel space block pa) start (fun step after => step.Ran space start after)
      fun failure _ => failure = .outOfFuel ∨ Excused start.device.ram space failure := by
  obtain ⟨hart, engine⟩ := start
  have marked := ready.used block.id
  have used := ready.sound.used block.id
  have scanned := Body.scan_scanned taken maxInsns
  obtain ⟨poll, interval, laid⟩ := marked.built.laid
  unfold runCompiled
  rw [ends_bind, ends_onEngine, ends_modify, ends_bind, ends_get, ends_bind, marked.built.held, ends_ofExcept_ok, ends_bind,
    ends_onDataSide]
  refine (ThreadedCode.run_left (marked.keeps granular) laid scanned (Nat.sub_le ..) marked.built.filled fuel ?_).mono ?_ ?_
  · exact ⟨rfl, ⟨.refl used.sound, rfl, fun _ _ _ => rfl⟩, fun _ => .refl⟩
  · intro exit after left
    obtain ⟨pcAt, ran⟩ := marked.left granular left
    have placed : Core.atPc ⟨after.hart, after.device.engine⟩ exit.nextPc = ⟨after.hart, after.device.engine⟩ := by
      rw [← pcAt]
      rfl
    rw [ends_bind, ends_setPc, placed, ends_bind, ends_onEngine]
    refine (tally_quiet ran.onward.sound pa exit).mono ?_ fun _ _ => False.elim
    intro _ final tallied
    have whole := (ran.prepared used rfl).aside tallied
    unfold CodeExit.outcome at whole
    cases named : exit.cause <;> rw [named] at whole <;> exact whole
  · intro failure _ broke
    cases broke with
    | fuel => exact .inl rfl
    | insn here there place ran =>
      have legal := Instruction.decode_legal (scanned.line _ _ _ there).decoded
      exact .inr ((here.attempt granular legal _).failure ran)

end LoopM
end TieredHart
