import TieredHart.Proofs.BlockWrites
import TieredHart.Proofs.CompiledBlocks

namespace TieredHart

variable {σ : Type}

namespace Status

-- The previous mode is machine mode, and of the other bits only the two interrupt enables are ever set.
structure Legal (status : Word) : Prop where
  machine : status &&& mpp = mpp
  others : status &&& ~~~(mie ||| mpie ||| mpp) = 0

def ofBits (enabled previous : Bool) : Word := (if enabled then mie else 0) ||| (if previous then mpie else 0) ||| mpp

theorem ofBits_legal (enabled previous : Bool) : Legal (ofBits enabled previous) := by
  cases enabled <;> cases previous <;> exact ⟨rfl, rfl⟩

theorem masked_eq (status : Word) :
    (status &&& (mie ||| mpie)) ||| mpp = ofBits (status.getLsbD 3) (status.getLsbD 7) := by
  have enables : mie ||| mpie = BitVec.twoPow 64 3 ||| BitVec.twoPow 64 7 := rfl
  unfold ofBits
  rw [enables, BitVec.and_or_distrib_left, BitVec.and_twoPow, BitVec.and_twoPow]
  rfl

theorem Legal.eq_ofBits {status : Word} (legal : Legal status) : ∃ enabled previous, status = ofBits enabled previous := by
  have whole : (mie ||| mpie ||| mpp) ||| ~~~(mie ||| mpie ||| mpp) = BitVec.allOnes 64 := by decide
  have parts : status = (status &&& (mie ||| mpie)) ||| mpp := calc
    status = status &&& ((mie ||| mpie ||| mpp) ||| ~~~(mie ||| mpie ||| mpp)) := by rw [whole, BitVec.and_allOnes]
    _ = status &&& (mie ||| mpie ||| mpp) := by
      rw [BitVec.and_or_distrib_left, legal.others]
      exact BitVec.or_zero
    _ = (status &&& (mie ||| mpie)) ||| mpp := by rw [BitVec.and_or_distrib_left, legal.machine]
  exact ⟨_, _, parts.trans (masked_eq status)⟩

theorem Legal.stack {status : Word} (legal : Legal status) : Legal (Hart.stackInterruptEnable status) := by
  obtain ⟨enabled, previous, rfl⟩ := legal.eq_ofBits
  cases enabled <;> cases previous <;> exact ⟨rfl, rfl⟩

theorem Legal.unstack {status : Word} (legal : Legal status) : Legal (Hart.unstackInterruptEnable status) := by
  obtain ⟨enabled, previous, rfl⟩ := legal.eq_ofBits
  cases enabled <;> cases previous <;> exact ⟨rfl, rfl⟩

end Status

theorem Word.even_cleared (word : Word) : (word &&& ~~~1).toNat % 2 = 0 := by
  have low : (word &&& ~~~1).getLsbD 0 = false := by simp
  rw [BitVec.getLsbD, Nat.testBit_zero, decide_eq_false_iff_not] at low
  omega

theorem Word.fourfold_cleared (word : Word) : (word &&& ~~~3).toNat % 4 = 0 := by
  have low : (word &&& ~~~3).getLsbD 0 = false := by simp
  have next : (word &&& ~~~3).getLsbD 1 = false := by simp
  rw [BitVec.getLsbD, Nat.testBit_zero, decide_eq_false_iff_not] at low
  rw [BitVec.getLsbD, Nat.testBit_succ, Nat.testBit_zero, decide_eq_false_iff_not] at next
  omega

namespace Hart

structure Legal (hart : Hart) : Prop where
  zero : hart.reg 0 = .ok 0
  pc : hart.pc.toNat % 2 = 0
  mepc : hart.mepc.toNat % 2 = 0
  mtvec : hart.mtvec.toNat % 4 = 0
  mstatus : Status.Legal hart.mstatus

theorem reset_legal {pc : Word} (even : pc.toNat % 2 = 0) : Legal { reset with pc := pc } :=
  ⟨rfl, even, rfl, rfl, Status.ofBits_legal false false⟩

variable {hart after : Hart}

theorem Legal.moved (legal : hart.Legal) (regs : after.regs = hart.regs) (pc : after.pc.toNat % 2 = 0)
    (mepc : after.mepc = hart.mepc) (mtvec : after.mtvec = hart.mtvec) (mstatus : after.mstatus = hart.mstatus) :
    after.Legal := by
  have read : after.reg 0 = hart.reg 0 := by
    unfold reg
    rw [regs]
  exact ⟨read.trans legal.zero, pc, mepc ▸ legal.mepc, mtvec ▸ legal.mtvec, mstatus ▸ legal.mstatus⟩

theorem Legal.put (legal : hart.Legal) (r : Nat) (value : Word) : (hart.put r value).Legal := by
  unfold Hart.put
  split
  · exact legal
  · rename_i other
    split
    · refine ⟨?_, legal.pc, legal.mepc, legal.mtvec, legal.mstatus⟩
      rw [← legal.zero]
      simp [reg, Vector.getElem_set_ne _ _ other]
    · exact legal

theorem Legal.retired (legal : hart.Legal) (rd : Nat) (value : Option Word) : (Execute.retired hart rd value).Legal := by
  have counted : ∀ {hart : Hart}, hart.Legal → hart.retire.Legal := fun legal => legal.moved rfl legal.pc rfl rfl rfl
  cases value with
  | none => exact counted legal
  | some value => exact counted (legal.put rd value)

theorem Legal.writeCsr (legal : hart.Legal) {number : Nat} {value : Word}
    (written : hart.writeCsrAt? number value = some after) : after.Legal := by
  obtain ⟨csr, -, written⟩ := Option.bind_eq_some_iff.mp written
  cases csr with
  | mstatus =>
    cases written
    exact ⟨legal.zero, legal.pc, legal.mepc, legal.mtvec, Status.masked_eq value ▸ Status.ofBits_legal _ _⟩
  | mtvec =>
    cases written
    exact ⟨legal.zero, legal.pc, legal.mepc, value.fourfold_cleared, legal.mstatus⟩
  | mepc =>
    cases written
    exact ⟨legal.zero, legal.pc, value.even_cleared, legal.mtvec, legal.mstatus⟩
  | misa | mie | mscratch | mcause | mtval | mip | minstret =>
    cases written
    exact legal.moved rfl legal.pc rfl rfl rfl
  | instret | mhartid => cases written

theorem Legal.exchanged (legal : hart.Legal) {insn : Instruction} {update : CsrUpdate} {source old : Word}
    (done : Execute.exchanged? hart insn update source = some (old, after)) : after.Legal := by
  rcases Execute.exchanged_cases done with rfl | ⟨_, -, written⟩
  · exact legal
  · exact legal.writeCsr written

theorem Legal.enterTrap (legal : hart.Legal) (trap : Trap) : (hart.enterTrap trap).2.Legal := by
  have aligned := legal.mtvec
  have even : hart.mtvec.toNat % 2 = 0 := by omega
  unfold Hart.enterTrap
  split
  · exact legal
  · exact ⟨legal.zero, even, legal.pc, legal.mtvec, legal.mstatus.stack⟩

end Hart

def Fault.Ordinary : Fault → Prop
  | .instructionMisaligned _ => False
  | _ => True

def Answer.Ordinary {α : Type} : Except Fault α → Prop
  | .ok _ => True
  | .error fault => fault.Ordinary

theorem PageFault.fault_ordinary (failed : PageFault) : failed.fault.Ordinary := by
  unfold PageFault.fault
  cases failed.kind <;> trivial

theorem Instruction.decode_ordinary {bytes : List UInt8} {fault : Fault} (refused : decode bytes = .error fault) :
    fault.Ordinary := by
  unfold decode at refused
  dsimp only at refused
  repeat' split at refused
  all_goals cases refused
  all_goals trivial

-- What an attempt comes to: the registers are legal, a retired instruction leads to an even address, and a fault is an
-- ordinary one.
structure Orderly (pc : Word) (len : Nat) (answer : Except Fault Flow) (core : Core σ) : Prop where
  hart : core.hart.Legal
  leads : ∀ flow, answer = .ok flow → (flow.target pc len).toNat % 2 = 0
  ordinary : Answer.Ordinary answer

structure Bus.Ordinary (bus : Bus σ) : Prop where
  load : ∀ va width s, Ends (bus.load va width) s (fun answer _ => Answer.Ordinary answer) fun _ _ => True
  store : ∀ va width value s, Ends (bus.store va width value) s (fun answer _ => Answer.Ordinary answer) fun _ _ => True

theorem Orderly.retired {pc : Word} {len : Nat} {flow : Flow} {hart : Hart} {device : σ} (legal : hart.Legal)
    (even : (flow.target pc len).toNat % 2 = 0) (rd : Nat) (value : Option Word) :
    Orderly pc len (.ok flow) (⟨Execute.retired hart rd value, device⟩ : Core σ) :=
  ⟨legal.retired rd value, fun _ same => Except.ok.inj same ▸ even, trivial⟩

theorem Orderly.refused {pc : Word} {len : Nat} {core : Core σ} {fault : Fault} (legal : core.hart.Legal)
    (ordinary : fault.Ordinary) : Orderly pc len (.error fault) core :=
  ⟨legal, nofun, ordinary⟩

theorem execute_orderly {bus : Bus σ} {insn : Instruction} {pc : Word} {core : Core σ} (ordinary : bus.Ordinary)
    (decoded : insn.Legal) (legal : core.hart.Legal) (even : pc.toNat % 2 = 0) :
    Ends (execute bus insn pc) core (fun answer after => Orderly pc insn.len answer after) fun _ _ => True := by
  have next : (Flow.next.target pc insn.len).toNat % 2 = 0 :=
    Word.even_add even (by rcases decoded.len with short | long <;> omega)
  have moved : ∀ t, (core.reattached t).hart.Legal := fun _ => legal.moved rfl legal.pc rfl rfl rfl
  refine (execute_executed bus insn pc core).mono (fun answer after executed => ?_) fun _ _ _ => trivial
  cases executed with
  | computed _ goes =>
    refine .retired legal ?_ ..
    cases goes with
    | next => exact next
    | aimed direct => exact Word.even_jump even (decoded.even direct)
    | through => exact Word.even_cleared _
  | loaded | stored => exact .retired (moved _) next ..
  | unloaded _ _ answered => exact .refused (moved _) ((ordinary.load _ _ _).answer answered)
  | unstored _ _ answered => exact .refused (moved _) ((ordinary.store _ _ _ _).answer answered)
  | misaligned odd => rcases odd with rfl | rfl <;> exact .refused legal trivial
  | called | halted | denied => exact .refused legal trivial
  | returned =>
    have unstacked : Hart.Legal { core.hart with mstatus := Hart.unstackInterruptEnable core.hart.mstatus } :=
      ⟨legal.zero, legal.pc, legal.mepc, legal.mtvec, legal.mstatus.unstack⟩
    have back : ((Flow.jump core.hart.mepc).target pc insn.len).toNat % 2 = 0 := legal.mepc
    exact .retired unstacked back ..
  | exchanged _ done => exact .retired (legal.exchanged done) next ..

theorem AddressSpace.locate_ordinary (space : AddressSpace) (kind : Access) (va : Word) (s : Attached σ) :
    Ends (space.locate kind va) s (fun answer _ => Answer.Ordinary answer) fun _ _ => True := by
  unfold locate
  cases space kind va with
  | none => exact PageFault.fault_ordinary ⟨va, kind⟩
  | some location =>
    dsimp only
    cases location.irq with
    | none => trivial
    | some code =>
      dsimp only
      rw [ends_bind, ends_get, ends_bind, ends_ofExcept]
      exact ⟨fun _ _ => trivial, fun _ _ => trivial⟩

theorem DataSide.codeBus_ordinary (space : AddressSpace) (fetch : Nat) (codeFrames : List Nat) :
    (codeBus space fetch codeFrames).toBus.Ordinary := by
  constructor
  · intro va width s
    show Ends (DataSide.load space va width) s _ _
    unfold DataSide.load
    rw [ends_bind]
    refine (space.locate_ordinary .load va s).weaken ?_
    intro answer t ordinary
    cases answer with
    | error fault => exact ordinary
    | ok pa =>
      dsimp only
      rw [ends_bind]
      refine .intro (fun read u _ => ?_) fun _ _ _ => trivial
      cases read <;> trivial
  · intro va width value s
    show Ends (DataSide.store space fetch codeFrames va width value) s _ _
    unfold DataSide.store
    rw [ends_bind]
    refine (space.locate_ordinary .store va s).weaken ?_
    intro answer t ordinary
    cases answer with
    | error fault => exact ordinary
    | ok pa =>
      dsimp only
      rw [ends_bind]
      refine .intro (fun stored u _ => ?_) fun _ _ _ => trivial
      cases stored with
      | error range => trivial
      | ok outcome =>
        dsimp only
        split <;> trivial

def Fetched.Lawful : Fetched → Prop
  | .insn decoded _ => decoded.Legal
  | .stop => True
  | .fault raised => raised.Ordinary

theorem Fetched.ofBytes_lawful (crosses : Bool) (bytes : List UInt8) : (ofBytes crosses bytes).Lawful := by
  unfold ofBytes
  cases decoded : Instruction.decode bytes with
  | ok insn => exact Instruction.decode_legal decoded
  | error fault => exact Instruction.decode_ordinary decoded

namespace Engine

theorem fetchHigh_lawful (pc : Word) (crosses : Bool) (low : List UInt8) (pa : Nat) (engine : Engine) :
    Ends (fetchHigh pc crosses low pa) engine (fun fetched _ => fetched.Lawful) fun _ _ => True := by
  unfold fetchHigh
  rw [ends_bind, ends_readRam]
  refine ⟨fun answer _ => ?_, fun _ _ => trivial⟩
  cases answer with
  | error range => trivial
  | ok high => exact Fetched.ofBytes_lawful crosses _

theorem fetchInsn_lawful (space : AddressSpace) (pc : Word) (pa : Nat) (first : Bool) (engine : Engine) :
    Ends (fetchInsn space pc pa first) engine (fun fetched _ => fetched.Lawful) fun _ _ => True := by
  unfold fetchInsn
  rw [ends_bind, ends_readRam]
  refine ⟨fun answer _ => ?_, fun _ _ => trivial⟩
  cases answer with
  | error range => trivial
  | ok low =>
    dsimp only
    split
    · exact Fetched.ofBytes_lawful false low
    · split
      · split
        · exact fetchHigh_lawful pc true low _ engine
        · split
          · exact PageFault.fault_ordinary ⟨pc + 2, .fetch⟩
          · trivial
      · rw [ends_bind, ends_ofExcept]
        exact ⟨fun high _ => fetchHigh_lawful pc false low high engine, fun _ _ => trivial⟩

end Engine
end TieredHart
