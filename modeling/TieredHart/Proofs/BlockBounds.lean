import TieredHart.Proofs.BlockBytes

namespace TieredHart

variable {ram : Ram} {space : AddressSpace} {start : Word} {pa n o frame : Nat} {insn : Instruction}

structure Retirement where
  pc : Word
  insn : Instruction
  flow : Flow
  deriving DecidableEq

inductive Trial where
  | retired (retirement : Retirement)
  | undecoded
  -- It could not be fetched, or raised a fault.
  | halted
  deriving DecidableEq

namespace Trial

def ofFault : Fault → Trial
  | .illegalInstruction _ => .undecoded
  | _ => .halted

theorem ofFault_halted {fault : Fault} (other : ∀ encoding, fault ≠ .illegalInstruction encoding) :
    ofFault fault = .halted := by
  unfold ofFault
  split
  · exact absurd rfl (other _)
  · rfl

def retirement? : Trial → Option Retirement
  | retired retirement => some retirement
  | _ => none

def retirements (trials : List Trial) : List Retirement := trials.filterMap retirement?

end Trial

open Trial (retirements)

namespace LoopM

def trialOne (space : AddressSpace) (frame : Nat) (pc : Word) (pa n : Nat) (core : Core Engine) : Trial :=
  match Engine.fetchInsn space pc pa (n = 0) core.device with
  | .ok (.insn insn _) fetched =>
    match executeOne space frame insn pc { core with device := fetched } with
    | .ok (.ok flow) _ => .retired ⟨pc, insn, flow⟩
    | _ => .halted
  | .ok (.fault fault) _ => .ofFault fault
  | _ => .halted

def trialsFrom (space : AddressSpace) (frame : Nat) : Nat → Word → Nat → Nat → Core Engine → List Trial
  | 0, pc, pa, n, core => [trialOne space frame pc pa n core]
  | more + 1, pc, pa, n, core => trialOne space frame pc pa n core ::
    thereafter (interpretOne space frame pc pa n) core fun answer after =>
      match answer with
      | .over .. => []
      | .further next len =>
        match checkedAdd pa len with
        | .ok pa => if Page.frame pa ≠ frame then [] else trialsFrom space frame more next pa (n + 1) after
        | .error _ => []

theorem trialsFrom_ended {space : AddressSpace} {frame more pa n insns : Nat} {pc : Word} {core after : Core Engine} {step : Step}
    (one : interpretOne space frame pc pa n core = .ok (.over insns step) after) :
    trialsFrom space frame more pc pa n core = [trialOne space frame pc pa n core] := by
  cases more with
  | zero => rfl
  | succ more => rw [trialsFrom, thereafter_ok one]

theorem trialsFrom_beyond {space : AddressSpace} {frame more pa pa' n len : Nat} {pc next : Word} {core after : Core Engine}
    (one : interpretOne space frame pc pa n core = .ok (.further next len) after) (added : checkedAdd pa len = .ok pa')
    (other : Page.frame pa' ≠ frame) :
    trialsFrom space frame (more + 1) pc pa n core = [trialOne space frame pc pa n core] := by
  rw [trialsFrom, thereafter_ok one]
  simp only [added, if_pos other]

theorem trialsFrom_onward {space : AddressSpace} {frame more pa pa' n len : Nat} {pc next : Word} {core after : Core Engine}
    (one : interpretOne space frame pc pa n core = .ok (.further next len) after) (added : checkedAdd pa len = .ok pa')
    (same : Page.frame pa' = frame) : trialsFrom space frame (more + 1) pc pa n core =
      trialOne space frame pc pa n core :: trialsFrom space frame more next pa' (n + 1) after := by
  rw [trialsFrom, thereafter_ok one]
  simp only [added, if_neg (fun other : Page.frame pa' ≠ frame => other same)]

def interpretedTrials (space : AddressSpace) (pa : Nat) (core : Core Engine) : List Trial :=
  trialsFrom space (Page.frame pa) (core.device.config.maxBlockInsns - 1) core.hart.pc pa 0 core

def interpretedInsns (space : AddressSpace) (pa : Nat) (core : Core Engine) : List Retirement :=
  retirements (interpretedTrials space pa core)

end LoopM

variable {core after : Core Engine} {body : Body} {trials : List Trial} {count : Nat} {step : Step} {finish : Word}

-- A body that ends where an interpretation did: the instructions that retired, where they stood, and where control went
-- in the end unless the last one jumped.
structure Body.Retraces (body : Body) (start : Word) (trials : List Trial) (finish : Word) : Prop where
  insns : body.insns = (retirements trials).map fun retired => ((retired.pc - start).toNat, retired.insn)
  straight : (∀ last, (retirements trials).getLast? = some last → last.flow = .next) →
    finish = start + BitVec.ofNat 64 body.guestLen
  ending : .undecoded ∈ trials → body.ending = .undecodable

-- An interpretation with n instructions behind, beside the scan of the bytes that are left: where it goes on behind the
-- block, or bytes mean nothing, the scan ends with it. It never goes on without a retired instruction.
structure Abreast (ram : Ram) (start : Word) (n : Nat) (body : Body) (trials : List Trial) (count : Nat) (step : Step)
    (finish : Word) : Prop where
  count : count = n + (retirements trials).length
  illegal : .undecoded ∈ trials → ∃ encoding, step = .fault (.illegalInstruction encoding)
  fits : (∃ chain, step = .next chain) ∨ .undecoded ∈ trials → ram.Fits
  retraces : (∃ chain, step = .next chain) ∨ .undecoded ∈ trials → body.Retraces start trials finish
  nonempty : n = 0 → (∃ chain, step = .next chain) → retirements trials ≠ []

namespace Abreast

theorem offset_back (near : o < 4100) : (start + BitVec.ofNat 64 o - start).toNat = o := by
  rw [BitVec.add_comm, BitVec.add_sub_cancel, BitVec.toNat_ofNat]
  omega

theorem faulted {fault : Fault} : Abreast ram start n body [.halted] n (.fault fault) finish := by
  have running : ¬ ((∃ chain, Step.fault fault = .next chain) ∨ Trial.undecoded ∈ [Trial.halted]) := by simp
  exact ⟨rfl, by simp, fun ended => absurd ended running, fun ended => absurd ended running, by simp⟩

theorem undecoded {encoding : BitVec 32} (fits : ram.Fits) (here : finish = start + BitVec.ofNat 64 o) :
    Abreast ram start n ⟨[], o, .undecodable, false⟩ [.undecoded] n (.fault (.illegalInstruction encoding)) finish :=
  ⟨rfl, fun _ => ⟨encoding, rfl⟩, fun _ => fits, fun _ => ⟨rfl, fun _ => here, fun _ => rfl⟩, by simp⟩

theorem cut (fits : ram.Fits) (later : n ≠ 0) (here : finish = start + BitVec.ofNat 64 o) :
    Abreast ram start n ⟨[], o, .pageBoundary, false⟩ [.halted] n (.next none) finish :=
  ⟨rfl, by simp, fun _ => fits, fun _ => ⟨rfl, fun _ => here, by simp⟩, fun first => absurd first later⟩

theorem full {ending : Ending} (fits : ram.Fits) (here : finish = start + BitVec.ofNat 64 o) :
    Abreast ram start (n + 1) ⟨[], o, ending, false⟩ [] (n + 1) (.next none) finish :=
  ⟨rfl, by simp, fun _ => fits, fun _ => ⟨rfl, fun _ => here, by simp⟩, by simp⟩

theorem last {flow : Flow} {ending : Ending} {crosses : Bool} (fits : ram.Fits) (near : o < 4096)
    (here : finish = flow.target (start + BitVec.ofNat 64 o) insn.len) :
    Abreast ram start n ⟨[(o, insn)], o + insn.len, ending, crosses⟩ [.retired ⟨start + BitVec.ofNat 64 o, insn, flow⟩]
      (n + 1) (.next none) finish := by
  have one : retirements [.retired ⟨start + BitVec.ofNat 64 o, insn, flow⟩] = [⟨start + BitVec.ofNat 64 o, insn, flow⟩] := rfl
  refine ⟨rfl, by simp, fun _ => fits, fun _ => ⟨?_, fun straight => ?_, by simp⟩, by simp [one]⟩
  · rw [one, List.map_singleton, offset_back (Nat.lt_trans near (by decide))]
  · cases straight _ rfl
    rw [here, Flow.target, BitVec.ofNat_add, BitVec.add_assoc]

theorem cons {ram' : Ram} (fits : ram.Fits) (near : o < 4096)
    (later : Abreast ram' start (n + 1) body trials count step finish) :
    Abreast ram start n { body with insns := (o, insn) :: body.insns }
      (.retired ⟨start + BitVec.ofNat 64 o, insn, .next⟩ :: trials) count step finish := by
  have further : retirements (.retired ⟨start + BitVec.ofNat 64 o, insn, .next⟩ :: trials) =
      ⟨start + BitVec.ofNat 64 o, insn, .next⟩ :: retirements trials := rfl
  have mem : .undecoded ∈ Trial.retired ⟨start + BitVec.ofNat 64 o, insn, .next⟩ :: trials ↔ .undecoded ∈ trials := by
    simp
  refine ⟨?_, fun there => later.illegal (mem.mp there), fun _ => fits, fun ended => ?_, by simp [further]⟩
  · rw [later.count, further, List.length_cons]
    omega
  · have retraces := later.retraces (ended.imp_right mem.mp)
    refine ⟨?_, fun straight => retraces.straight fun last there => ?_, fun there => retraces.ending (mem.mp there)⟩
    · rw [further, List.map_cons, ← retraces.insns, offset_back (Nat.lt_trans near (by decide))]
    · apply straight
      rw [further, List.getLast?_cons, there, Option.getD_some]

end Abreast

def Interpreted.Abreast (core : Core Engine) (start : Word) (pageEnd more n offset : Nat) (bytes : List UInt8)
    (trial : Trial) (after : Core Engine) : Interpreted → Prop
  | .over count step => TieredHart.Abreast core.device.ram start n (Body.scanFrom pageEnd (more + 1) offset bytes) [trial]
      count step after.hart.pc
  | .further next len => ∃ insn, trial = .retired ⟨start + BitVec.ofNat 64 offset, insn, .next⟩ ∧ insn.len = len ∧
      insn.Legal ∧ next = start + BitVec.ofNat 64 (offset + len) ∧ after.hart.pc = next ∧ core.device.ram.Fits ∧
      offset + len ≤ pageEnd ∧ Body.scanFrom pageEnd (more + 1) offset bytes =
        { Body.scanFrom pageEnd more (offset + len) (bytes.drop len) with
          insns := (offset, insn) :: (Body.scanFrom pageEnd more (offset + len) (bytes.drop len)).insns }

namespace LoopM

theorem interpretOne_abreast (granular : space.Granular) (leads : space.Leads start pa) (even : o % 2 = 0)
    (inside : o < Page.rest pa) (here : core.hart.pc = start + BitVec.ofNat 64 o) (frame more n : Nat) :
    Ends (interpretOne space frame (start + BitVec.ofNat 64 o) (pa + o) n) core
      (fun answer after => answer.Abreast core start (Page.rest pa) more n o
        ((core.device.ram.blockBytes pa (space.beyond start)).drop o)
        (trialOne space frame (start + BitVec.ofNat 64 o) (pa + o) n core) after) fun _ _ => True := by
  have near : o < 4096 := Nat.lt_of_lt_of_le inside (Nat.sub_le ..)
  have reads := Engine.fetchInsn_seen granular leads even inside (n = 0) core.device
  generalize (core.device.ram.blockBytes pa (space.beyond start)).drop o = bytes at *
  refine (interpretOne_interprets space frame (start + BitVec.ofNat 64 o) (pa + o) n core).mono (fun answer after one => ?_)
    fun _ _ _ => trivial
  unfold trialOne
  cases one with
  | unfetched fetched =>
    obtain ⟨rfl, seen⟩ := reads.answer fetched
    rw [fetched]
    rcases seen.of_fault with other | ⟨fits, there, decoded⟩
    · dsimp only
      rw [Trial.ofFault_halted other]
      exact .faulted
    · obtain ⟨encoding, rfl⟩ := Instruction.decode_illegal decoded
      show Abreast ..
      rw [Body.scanFrom_undecoded inside there decoded]
      exact .undecoded fits here
  | stopped fetched =>
    obtain ⟨rfl, seen⟩ := reads.answer fetched
    obtain ⟨fits, short, later⟩ := seen.of_stop
    have behind : n ≠ 0 := by simpa using later
    rw [fetched]
    show Abreast ..
    rw [Body.scanFrom_cut inside short]
    exact .cut fits behind here
  | faulted fetched ran =>
    rw [fetched]
    dsimp only
    rw [ran]
    exact .faulted
  | last fetched ran closes =>
    obtain ⟨rfl, seen⟩ := reads.answer fetched
    obtain ⟨fits, there, crossing, decoded⟩ := seen.of_insn
    have scanned := Body.scanFrom_decoded more inside there decoded
    rw [Instruction.decode_needs decoded] at crossing
    rw [← crossing, Bool.or_comm, closes] at scanned
    rw [fetched]
    dsimp only
    rw [ran]
    show Abreast ..
    rw [scanned]
    exact .last fits near rfl
  | @inner insn _ _ flow _ fetched ran continues =>
    obtain ⟨rfl, seen⟩ := reads.answer fetched
    obtain ⟨fits, there, crossing, decoded⟩ := seen.of_insn
    obtain ⟨inner, whole⟩ := Bool.or_eq_false_iff.mp continues
    have scanned := Body.scanFrom_decoded more inside there decoded
    rw [Instruction.decode_needs decoded] at crossing
    rw [← crossing, Bool.or_comm, continues] at scanned
    rw [whole, eq_comm, decide_eq_false_iff_not] at crossing
    cases (executeOne_straight core insn _ frame).answer ran flow rfl inner
    rw [fetched]
    dsimp only
    rw [ran]
    refine ⟨insn, rfl, rfl, Instruction.decode_legal decoded, ?_, rfl, fits, by omega, scanned⟩
    rw [Flow.target, BitVec.ofNat_add, BitVec.add_assoc]

-- Interpreting a block whose pages are not stored to, beside the scan of it. Both have as many instructions to go, and the
-- bytes that are left of the block stay the same from one instruction to the next.
theorem Interprets.abreast (granular : space.Granular) (leads : space.Leads start pa) {more n here : Nat} {pc : Word}
    {answer : Nat × Step} (interprets : Interprets space (Page.frame pa) more pc here n core answer after) :
    ∀ o, pc = start + BitVec.ofNat 64 o → here = pa + o → o % 2 = 0 → o < Page.rest pa → core.hart.pc = pc →
    core.device.ram.base ≤ pa → space.Untouched start pa (writesFrom space (Page.frame pa) more pc here n core) →
    Abreast core.device.ram start n
      (Body.scanFrom (Page.rest pa) (more + 1) o ((core.device.ram.blockBytes pa (space.beyond start)).drop o))
      (trialsFrom space (Page.frame pa) more pc here n core) answer.1 answer.2 after.hart.pc := by
  have beside : ∀ (more : Nat) {n o answer} {core after : Core Engine}, o % 2 = 0 → o < Page.rest pa →
      core.hart.pc = start + BitVec.ofNat 64 o →
      interpretOne space (Page.frame pa) (start + BitVec.ofNat 64 o) (pa + o) n core = .ok answer after →
        answer.Abreast core start (Page.rest pa) more n o ((core.device.ram.blockBytes pa (space.beyond start)).drop o)
          (trialOne space (Page.frame pa) (start + BitVec.ofNat 64 o) (pa + o) n core) after := by
    intro more n o answer core after even inside placed one
    exact (interpretOne_abreast granular leads even inside placed (Page.frame pa) more n).answer one
  have near : ∀ {o}, o < Page.rest pa → o < 4096 := fun inside => Nat.lt_of_lt_of_le inside (Nat.sub_le ..)
  induction interprets with
  | ended one =>
    rintro o rfl rfl even inside placed - -
    rw [trialsFrom_ended one]
    exact beside _ even inside placed one
  | full one =>
    rintro o rfl rfl even inside placed - -
    obtain ⟨insn, tried, rfl, -, rfl, moved, fits, -, scanned⟩ := beside 0 even inside placed one
    show Abreast _ _ _ _ [trialOne ..] _ _ _
    rw [tried, scanned]
    exact .cons fits (near inside) (.full fits moved)
  | @beyond more _ _ _ _ _ _ _ _ one added other =>
    rintro o rfl rfl even inside placed - -
    obtain ⟨insn, tried, rfl, -, rfl, moved, fits, -, scanned⟩ := beside (more + 1) even inside placed one
    cases checkedAdd_ok added
    have outside : Page.rest pa ≤ o + insn.len := by
      simp only [Page.frame, Page.rest, Page.offset] at *
      omega
    rw [trialsFrom_beyond one added other, tried, scanned]
    simp only [Body.scanFrom, outside, if_true]
    exact .cons fits (near inside) (.full fits moved)
  | @onward more _ _ _ _ n _ core _ _ _ one added same _ ih =>
    rintro o rfl rfl even inside placed low untouched
    have spares := (interpretOne_told (Engine.Spares.tells (Page.frame pa) core.device) _ _ n).answer one
    obtain ⟨insn, tried, rfl, legal, rfl, moved, fits, -, scanned⟩ := beside (more + 1) even inside placed one
    cases checkedAdd_ok added
    rw [writesFrom_onward one added same] at untouched
    obtain ⟨later, now⟩ := untouched.append
    have inner : o + insn.len < Page.rest pa := by
      simp only [Page.frame, Page.rest, Page.offset] at *
      omega
    have stillEven : (o + insn.len) % 2 = 0 := by
      have length := legal.len
      omega
    have bytes := spares.blockBytes low now.1 (fun _ => space.beyond_aligned granular) now.2
    rw [trialsFrom_onward one added same, tried, scanned, List.drop_drop, ← bytes]
    exact .cons fits (near inside) (ih _ rfl (Nat.add_assoc ..) stillEven inner moved (spares.base ▸ low) later)

theorem runInterpreted_abreast (granular : space.Granular) (leads : space.Leads core.hart.pc pa)
    (low : core.device.ram.base ≤ pa) (untouched : space.Untouched core.hart.pc pa (interpretedWrites space pa core)) :
    Ends (runInterpreted space pa) core
      (fun step after => after.device.counts.interpInsns =
          core.device.counts.interpInsns + (interpretedInsns space pa core).length ∧
        Abreast core.device.ram core.hart.pc 0 (Body.scanFrom (Page.rest pa) (core.device.config.maxBlockInsns - 1 + 1) 0
          (core.device.ram.blockBytes pa (space.beyond core.hart.pc))) (interpretedTrials space pa core)
          (interpretedInsns space pa core).length step after.hart.pc) fun _ _ => True := by
  have inside : 0 < Page.rest pa := by
    simp only [Page.rest, Page.offset]
    omega
  have zero : core.hart.pc + BitVec.ofNat 64 0 = core.hart.pc := BitVec.add_zero _
  have beside : Ends (interpretFrom space (Page.frame pa) (core.device.config.maxBlockInsns - 1) core.hart.pc pa 0) core
      (fun answer after => Abreast core.device.ram core.hart.pc 0 (Body.scanFrom (Page.rest pa)
        (core.device.config.maxBlockInsns - 1 + 1) 0 (core.device.ram.blockBytes pa (space.beyond core.hart.pc)))
        (interpretedTrials space pa core) answer.1 answer.2 after.hart.pc) fun _ _ => True := by
    refine (interpretFrom_interprets ..).mono (fun answer after interprets => ?_) fun _ _ _ => trivial
    exact interprets.abreast granular leads 0 zero.symm rfl (Nat.zero_mod 2) inside rfl low untouched
  have stored : Ends (interpretFrom space (Page.frame pa) (core.device.config.maxBlockInsns - 1) core.hart.pc pa 0) core
      (fun _ after => core.device.Spares (interpretedWrites space pa core) after.device) _ :=
    interpretFrom_told (fun engine (_ : True) => Engine.Spares.tells (Page.frame pa) engine) (fun _ _ => trivial)
      (fun first second => first.trans second) _ trivial
  unfold runInterpreted
  rw [ends_bind, ends_get, ends_bind]
  refine .intro (fun answer middle ran => ?_) fun _ _ _ => trivial
  have abreast := beside.answer ran
  have counts := (stored.answer ran).counts
  obtain ⟨n, step⟩ := answer
  have all := abreast.count
  rw [Nat.zero_add] at all
  dsimp only at abreast all
  subst all
  refine ⟨?_, abreast⟩
  show middle.device.counts.interpInsns + _ = _
  rw [counts]
  rfl

-- The two ways to find the end of a block agree: code compiled from memory before an interpretation has the instructions
-- that retired, if neither of their pages was stored to meanwhile.
theorem compiles_as_interpreted (granular : space.Granular) (leads : space.Leads core.hart.pc pa)
    (page : core.device.ram.Holds (Page.base pa) 4096) (free : core.device.cache.contains pa = false)
    (allowed : 0 < core.device.config.maxBlockInsns) (ran : runInterpreted space pa core = .ok step after)
    (untouched : space.Untouched core.hart.pc pa (interpretedWrites space pa core)) :
    after.device.counts.interpInsns = core.device.counts.interpInsns + (interpretedInsns space pa core).length ∧
    (.undecoded ∈ interpretedTrials space pa core → ∃ encoding, step = .fault (.illegalInstruction encoding)) ∧
    ((∃ chain, step = .next chain) ∨
        .undecoded ∈ interpretedTrials space pa core ∧ 0 < (interpretedInsns space pa core).length →
      ∃ taken code compiled,
        Engine.capture ⟨pa, core.hart.pc, space.beyond core.hart.pc⟩ core.device = .ok (.ok taken) core.device ∧
        Engine.compile taken core.device = .ok (.ok code) compiled ∧
        code.insnCount = (interpretedInsns space pa core).length ∧
        (Body.scan taken core.device.config.maxBlockInsns).insns =
          (interpretedInsns space pa core).map (fun retired => ((retired.pc - core.hart.pc).toNat, retired.insn)) ∧
        ((∀ last, (interpretedInsns space pa core).getLast? = some last → last.flow = .next) →
          code.guestLen = (after.hart.pc - core.hart.pc).toNat) ∧
        (.undecoded ∈ interpretedTrials space pa core → code.ending = .undecodable)) := by
  have even := leads.even granular
  have rest : core.device.ram.Holds pa (Page.rest pa) := by
    simp only [Ram.Holds, Page.base, Page.rest, Page.offset] at *
    omega
  obtain ⟨counted, abreast⟩ := (runInterpreted_abreast granular leads rest.1 untouched).answer ran
  refine ⟨counted, abreast.illegal, fun closed => ?_⟩
  have ended : (∃ chain, step = .next chain) ∨ .undecoded ∈ interpretedTrials space pa core := closed.imp_right And.left
  have nonempty : interpretedInsns space pa core ≠ [] := by
    rcases closed with next | ⟨-, counted⟩
    · exact abreast.nonempty rfl next
    · exact List.ne_nil_of_length_pos counted
  have retraces := abreast.retraces ended
  rw [Nat.sub_add_cancel allowed] at retraces
  have taking : Ends (Engine.capture ⟨pa, core.hart.pc, space.beyond core.hart.pc⟩) core.device _ fun _ _ => False :=
    Engine.capture_block (abreast.fits ended) even free rest
  obtain ⟨_, _, captured, rfl, taken, rfl, entry, bytes⟩ := taking.answers
  have scanned : Body.scan taken core.device.config.maxBlockInsns = Body.scanFrom (Page.rest pa)
      core.device.config.maxBlockInsns 0 (core.device.ram.blockBytes pa (space.beyond core.hart.pc)) := by
    rw [Body.scan, entry, bytes]
  rw [← scanned] at retraces
  have filled : (Body.scan taken core.device.config.maxBlockInsns).insns ≠ [] := by
    rw [retraces.insns]
    exact fun mapped => nonempty (List.map_eq_nil_iff.mp mapped)
  obtain ⟨_, compiled, built, code, rfl, made⟩ := (Engine.compile_filled filled).answers
  obtain ⟨insnCount, guestLen, ending⟩ := Compile.compiled_body made
  refine ⟨taken, code, compiled, captured, built, ?_, retraces.insns, fun straight => ?_, fun there => ?_⟩
  · rw [insnCount, retraces.insns, List.length_map]
    rfl
  · have near : (Body.scan taken core.device.config.maxBlockInsns).guestLen < 4100 := by
      have offsets := (Body.scan_scanned taken core.device.config.maxBlockInsns).offsets (Nat.le_refl _)
      rw [← Body.Scanned.guestLen_eq, entry] at offsets
      have page : Page.rest pa ≤ 4096 := Nat.sub_le ..
      omega
    rw [retraces.straight straight, guestLen, Abreast.offset_back near]
  · rw [ending, retraces.ending there]

-- Three pages. A block at the end of the first stores to the third, and its last instruction reaches into the second; one
-- at the start of the first runs into bytes that mean nothing.
def acrossPages : Ram :=
  ⟨0, ([0x01, 0x00] ++ List.replicate 0xff2 0 ++ [0x37, 0x24, 0, 0, 0x23, 0, 0x84, 0, 0x01, 0, 0x93, 0, 0x10, 0] ++
    List.replicate 0x1ffe 0 : List UInt8).toArray,
    by simp only [List.size_toArray, List.length_append, List.length_replicate, List.length_cons, List.length_nil]⟩

set_option synthInstance.maxSize 512 in
theorem acrossPages_compiles : ∃ engine, Engine.setup {} acrossPages = .ok (.ok engine) ∧
    (∃ step after, runInterpreted .bare 0xff4 (Core.atPc ⟨Hart.reset, engine⟩ 0xff4) = .ok step after ∧ step = .next none ∧
      interpretedWrites .bare 0xff4 (Core.atPc ⟨Hart.reset, engine⟩ 0xff4) = [(0x2000, 1)] ∧
      ∃ taken code compiled, Engine.capture ⟨0xff4, 0xff4, AddressSpace.bare.beyond 0xff4⟩ engine = .ok (.ok taken) engine ∧
        Engine.compile taken engine = .ok (.ok code) compiled ∧ code.insnCount = 4 ∧ code.guestLen = 14) ∧
    ∃ step after, runInterpreted .bare 0 (Core.atPc ⟨Hart.reset, engine⟩ 0) = .ok step after ∧
      step = .fault (.illegalInstruction 0) ∧
      ∃ taken code compiled, Engine.capture ⟨0, 0, AddressSpace.bare.beyond 0⟩ engine = .ok (.ok taken) engine ∧
        Engine.compile taken engine = .ok (.ok code) compiled ∧ code.insnCount = 1 ∧ code.ending = .undecodable := by
  have computed : ∃ engine, Engine.setup {} acrossPages = .ok (.ok engine) ∧
      engine.ram.Holds 0 4096 ∧ engine.cache.contains 0xff4 = false ∧ engine.cache.contains 0 = false ∧
      0 < engine.config.maxBlockInsns ∧
      (∃ step after, runInterpreted .bare 0xff4 (Core.atPc ⟨Hart.reset, engine⟩ 0xff4) = .ok step after ∧
        step = .next none ∧ after.hart.pc = 0x1002 ∧
        interpretedWrites .bare 0xff4 (Core.atPc ⟨Hart.reset, engine⟩ 0xff4) = [(0x2000, 1)] ∧
        ((interpretedInsns .bare 0xff4 (Core.atPc ⟨Hart.reset, engine⟩ 0xff4)).map (·.flow)) = [.next, .next, .next, .next] ∧
        AddressSpace.bare.Untouched 0xff4 0xff4 [(0x2000, 1)]) ∧
      ∃ step after, runInterpreted .bare 0 (Core.atPc ⟨Hart.reset, engine⟩ 0) = .ok step after ∧
        step = .fault (.illegalInstruction 0) ∧
        interpretedWrites .bare 0 (Core.atPc ⟨Hart.reset, engine⟩ 0) = [] ∧
        .undecoded ∈ interpretedTrials .bare 0 (Core.atPc ⟨Hart.reset, engine⟩ 0) ∧
        (interpretedInsns .bare 0 (Core.atPc ⟨Hart.reset, engine⟩ 0)).length = 1 := by
    decide +kernel
  obtain ⟨engine, built, page, free, free', allowed, ⟨step, after, ran, next, pc, writes, flows, untouched⟩, step', after',
    ran', fault, writes', undecoded, one⟩ := computed
  refine ⟨engine, built, ⟨step, after, ran, next, writes, ?_⟩, step', after', ran', fault, ?_⟩
  · have leads : AddressSpace.bare.Leads 0xff4 0xff4 := ⟨by decide, _, rfl, by decide⟩
    have untouched : AddressSpace.bare.Untouched 0xff4 0xff4
        (interpretedWrites .bare 0xff4 (Core.atPc ⟨Hart.reset, engine⟩ 0xff4)) := by rwa [writes]
    obtain ⟨-, -, compiles⟩ := compiles_as_interpreted .bare leads page free allowed ran untouched
    obtain ⟨taken, code, compiled, captured, made, count, -, straight, -⟩ := compiles (.inl ⟨none, next⟩)
    refine ⟨taken, code, compiled, captured, made, ?_, ?_⟩
    · rw [count, ← List.length_map (·.flow), flows]
      rfl
    · have went : code.guestLen = (after.hart.pc - 0xff4).toNat := by
        apply straight
        intro last there
        have member := List.mem_map_of_mem (f := (·.flow)) (List.mem_of_getLast? there)
        rw [flows] at member
        simpa using member
      rw [went, pc]
      rfl
  · have leads : AddressSpace.bare.Leads 0 0 := ⟨by decide, _, rfl, by decide⟩
    have untouched : AddressSpace.bare.Untouched 0 0 (interpretedWrites .bare 0 (Core.atPc ⟨Hart.reset, engine⟩ 0)) := by
      rw [writes']
      decide
    obtain ⟨-, -, compiles⟩ := compiles_as_interpreted .bare leads page free' allowed ran' untouched
    obtain ⟨taken, code, compiled, captured, made, count, -, -, ending⟩ :=
      compiles (.inr ⟨undecoded, by rw [one]; decide⟩)
    exact ⟨taken, code, compiled, captured, made, count.trans one, ending undecoded⟩

end LoopM
end TieredHart
