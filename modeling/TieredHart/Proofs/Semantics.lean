import TieredHart.Probe
import TieredHart.Proofs.Accesses
import TieredHart.Proofs.Attempts
import TieredHart.Proofs.Grammar
import TieredHart.Proofs.ReferenceWords

namespace TieredHart

variable {σ : Type}

-- A bus that answers a load with no more than the bytes asked for.
def Bus.Narrow (bus : Bus σ) : Prop :=
  ∀ va width s word t, bus.load va width s = .ok (.ok word) t → word.toNat < 1 <<< (8 * width.bytes)

theorem Instruction.operands_fit {bytes : List UInt8} {insn : Instruction} (decoded : decode bytes = .ok insn) :
    { insn with len := 4 }.Fits := by
  rcases (decode_legal decoded).len with short | long
  · obtain ⟨form, legal, -, rfl⟩ := parcel_of_decode decoded short
    have fits := Compressed.expand_fits legal
    have four : form.expand.len = 4 := fits.2.2.2.1
    have same : { form.expand with len := 4 } = form.expand := by rw [← four]
    exact same ▸ fits
  · have same : { insn with len := 4 } = insn := by rw [← long]
    exact same ▸ (word_of_decode decoded long).1

namespace Hart

variable {hart : Hart} {r : Nat}

theorem view_x (known : r < 32) : hart.view.x r = hart.regs[r].toNat := dif_pos known

theorem view_put (known : r < 32) (value : Int) :
    (hart.put r (BitVec.ofInt 64 value)).view = Reference.write hart.view r value := by
  simp only [put, Reference.write, known, dif_pos]
  split
  · rfl
  · refine congrArg (fun x => { hart.view with x := x }) (funext fun q => ?_)
    simp only [view]
    by_cases same : q = r
    · subst same
      simp [known, Reference.unsigned_eq]
    · by_cases inside : q < 32
      · simp [inside, same, Ne.symm same]
      · simp [inside, same]

theorem view_retire : hart.retire.view =
    { hart.view with instret := Reference.unsigned 64 (hart.view.instret + 1) } := by
  have count : (hart.instret + 1).toNat = Reference.unsigned 64 (hart.instret.toNat + 1) := by
    rw [Reference.unsigned_eq, BitVec.ofInt_add, Reference.word_eq]
    rfl
  simp only [retire, view, count]

end Hart

namespace Reference

variable {bus : Bus σ} {insn : Instruction} {pc : Word} {core : Core σ}

def Meets (bus : Bus σ) (insn : Instruction) (pc : Word) (core : Core σ)
    (result : EStateM.Result Failure (Core σ) (Except Fault Flow)) : Prop :=
  ∀ after next, (∃ flow, result = .ok (.ok flow) after ∧ (flow.target pc insn.len).toNat = next) ↔
    Retires bus insn pc core after next

theorem retire_eq {raw : Nat} {before hart : Hart} {value : Option Int} {target : Int} (known : insn.rd < 32)
    (effect : effect? insn pc.toNat raw before.view = some ⟨value, target, hart.view⟩) :
    retire? insn pc.toNat raw before.view =
      some ((Execute.retired hart insn.rd (value.map (BitVec.ofInt 64))).view, (BitVec.ofInt 64 target).toNat) := by
  rw [retire?, effect, Option.map_some, unsigned_eq, Execute.retired, Hart.view_retire]
  cases value with
  | none => rfl
  | some value => simp only [Option.elim_some, Option.map_some, Hart.view_put known]

theorem meets_retired {attached : Attached σ} {raw : Nat} {hart : Hart} {flow : Flow} {value : Option Int} {target : Int}
    (known : insn.rd < 32)
    (made : ∀ attached' raw', Access.Made bus core.attached attached' raw' (access insn core.hart.view) ↔
      attached' = attached ∧ raw' = raw)
    (effect : effect? insn pc.toNat raw (core.reattached attached).hart.view = some ⟨value, target, hart.view⟩)
    (leads : flow.target pc insn.len = BitVec.ofInt 64 target) :
    Meets bus insn pc core
      (.ok (.ok flow) ⟨Execute.retired hart insn.rd (value.map (BitVec.ofInt 64)), attached.device⟩) := by
  have reference := retire_eq known effect
  rw [← leads] at reference
  intro after next
  constructor
  · rintro ⟨other, ran, rfl⟩
    cases ran
    exact ⟨attached, raw, (made attached raw).mpr ⟨rfl, rfl⟩, rfl, reference⟩
  · rintro ⟨attached', raw', access, device, retired⟩
    obtain ⟨rfl, rfl⟩ := (made attached' raw').mp access
    obtain ⟨views, address⟩ := Prod.mk.inj (Option.some.inj (reference.symm.trans retired))
    obtain ⟨hart', device'⟩ := after
    cases device
    cases Hart.view_injective views
    exact ⟨flow, rfl, address⟩

theorem meets_refused {result : EStateM.Result Failure (Core σ) (Except Fault Flow)}
    (failed : ∀ flow after, result ≠ .ok (.ok flow) after)
    (refused : ∀ attached raw, Access.Made bus core.attached attached raw (access insn core.hart.view) →
      effect? insn pc.toNat raw (core.reattached attached).hart.view = none) : Meets bus insn pc core result := by
  intro after next
  constructor
  · rintro ⟨flow, ran, -⟩
    exact absurd ran (failed flow after)
  · rintro ⟨attached, raw, access, -, retired⟩
    have none : effect? insn pc.toNat raw { core.hart with mip := attached.lines }.view = none := refused attached raw access
    rw [retire?, none] at retired
    cases retired

theorem meets_finish {hart : Hart} {flow : Flow} {value : Option Int} {target : Int} (known : insn.rd < 32)
    (silent : access insn core.hart.view = none)
    (effect : effect? insn pc.toNat 0 core.hart.view = some ⟨value, target, hart.view⟩)
    (leads : flow.target pc insn.len = BitVec.ofInt 64 target) :
    Meets bus insn pc core (.ok (.ok flow) ⟨Execute.retired hart insn.rd (value.map (BitVec.ofInt 64)), core.device⟩) := by
  have made : ∀ attached raw, Access.Made bus core.attached attached raw (access insn core.hart.view) ↔
      attached = core.attached ∧ raw = 0 := by
    intro attached raw
    rw [silent]
    exact Iff.rfl
  exact meets_retired known made effect leads

theorem address_eq {hart : Hart} (known : insn.rs1 < 32) :
    address insn hart.view = (hart.regs[insn.rs1] + Word.ofImmediate insn.imm).toNat := by
  rw [address, Hart.view_x known, moved_eq, unsigned_eq]

theorem word_ofNat (word : Word) : BitVec.ofNat 64 word.toNat = word := by rw [BitVec.ofNat_toNat, BitVec.setWidth_eq]

theorem loadWidth_eq (op : LoadOp) : loadWidth op = op.width := by cases op <;> rfl

theorem storeWidth_eq (op : StoreOp) : storeWidth op = op.width := by cases op <;> rfl

theorem meets_settled {α : Type} {result : EStateM.Result Failure (Attached σ) (Except Fault α)} {value : α → Option Word}
    (raw : α → Nat) (wanted : α → Option Int) (known : insn.rd < 32)
    (made : ∀ t n, Access.Made bus core.attached t n (access insn core.hart.view) ↔
      ∃ a, result = .ok (.ok a) t ∧ n = raw a)
    (effect : ∀ a t, result = .ok (.ok a) t → value a = (wanted a).map (BitVec.ofInt 64) ∧
      effect? insn pc.toNat (raw a) (core.reattached t).hart.view =
        some ⟨wanted a, pc.toNat + insn.len, (core.reattached t).hart.view⟩) :
    Meets bus insn pc core (Execute.settled core insn.rd value result) := by
  rcases result with ⟨fault | a, t⟩ | ⟨failure, t⟩
  · refine meets_refused (fun _ _ same => by cases same) fun attached n access => ?_
    obtain ⟨_, answered, -⟩ := (made attached n).mp access
    cases answered
  · obtain ⟨same, effect⟩ := effect a t rfl
    have only : ∀ attached n, Access.Made bus core.attached attached n (access insn core.hart.view) ↔
        attached = t ∧ n = raw a := by
      intro attached n
      rw [made]
      constructor
      · rintro ⟨_, answered, rfl⟩
        cases answered
        exact ⟨rfl, rfl⟩
      · rintro ⟨rfl, rfl⟩
        exact ⟨a, rfl, rfl⟩
    rw [Execute.settled, same]
    exact meets_retired known only effect (after_eq pc insn.len)
  · refine meets_refused (fun _ _ same => by cases same) fun attached n access => ?_
    obtain ⟨_, answered, -⟩ := (made attached n).mp access
    cases answered

theorem meets_load (narrow : bus.Narrow) (rd : insn.rd < 32) {op : LoadOp} (named : insn.op = .load op) {va : Word}
    (asked : access insn core.hart.view = some (.load va.toNat op.width)) :
    Meets bus insn pc core (Execute.load bus op insn.rd va core) := by
  by_cases aligned : va.toNat % op.width.bytes = 0
  · rw [Execute.load_aligned rd aligned]
    refine meets_settled BitVec.toNat (fun word => some (loaded op word.toNat)) rd ?_ ?_
    · intro t n
      rw [asked, Access.Made, word_ofNat]
      exact and_iff_right aligned
    · intro word t answered
      refine ⟨?_, ?_⟩
      · rw [loaded_eq op (narrow va op.width _ word t answered), Option.map_some]
      · simp only [effect?, named]
  · rw [Execute.load_misaligned aligned]
    refine meets_refused (fun _ _ same => by cases same) fun attached raw made => ?_
    rw [asked] at made
    exact absurd made.1 aligned

theorem meets_store (rd : insn.rd < 32) {op : StoreOp} (named : insn.op = .store op) {va value : Word}
    (asked : access insn core.hart.view = some (.store va.toNat op.width value.toNat)) :
    Meets bus insn pc core (Execute.store bus op insn.rd va value core) := by
  by_cases aligned : va.toNat % op.width.bytes = 0
  · rw [Execute.store_aligned rd aligned]
    refine meets_settled (fun _ => 0) (fun _ => none) rd ?_ ?_
    · intro t n
      rw [asked, Access.Made, word_ofNat, word_ofNat]
      constructor
      · rintro ⟨-, silent, answered⟩
        exact ⟨(), answered, silent⟩
      · rintro ⟨_, answered, silent⟩
        exact ⟨aligned, silent, answered⟩
    · intro _ t _
      refine ⟨rfl, ?_⟩
      simp only [effect?, named]
  · rw [Execute.store_misaligned aligned]
    refine meets_refused (fun _ _ same => by cases same) fun attached raw made => ?_
    rw [asked] at made
    exact absurd made.1 aligned

theorem exchanged_eq (hart : Hart) {number : Nat} (small : number < 4096) (numbered : insn.csrNumber = number)
    (update : CsrUpdate) (source : Word) :
    (Execute.exchanged? hart insn update source).map (fun exchanged => (exchanged.1.toNat, exchanged.2.view)) =
      (readCsr? hart.view number).bind fun old =>
        (updateCsr? hart.view number update insn.rs1 old source.toNat).map (old, ·) := by
  unfold Execute.exchanged?
  rw [numbered, ← readCsr_eq hart small]
  cases hart.readCsrAt? number with
  | none => rfl
  | some old =>
    have write : ∀ word : Word, ((hart.writeCsrAt? number word).map (old, ·)).map
        (fun exchanged => (exchanged.1.toNat, exchanged.2.view)) =
          (writeCsr? hart.view number word.toNat).map (old.toNat, ·) := by
      intro word
      rw [← writeCsr_eq hart small, Option.map_map, Option.map_map]
      rfl
    simp only [Option.bind_some, Option.map_some]
    cases update with
    | write => exact write source
    | set =>
      simp only [Instruction.csrNew?, updateCsr?]
      split
      · rfl
      · rw [← BitVec.toNat_or]
        exact write _
    | clear =>
      simp only [Instruction.csrNew?, updateCsr?]
      split
      · rfl
      · rw [← toNat_and_not]
        exact write _

theorem meets_csr (rd : insn.rd < 32) {number : Nat} (small : number < 4096) (numbered : insn.imm = number)
    {update : CsrUpdate} {source : CsrSource} (named : insn.op = .csr update source) {value : Word}
    (given : csrSource core.hart.view insn.rs1 source = value.toNat) :
    Meets bus insn pc core (Execute.csr insn update value core) := by
  have number_eq : insn.csrNumber = number := by
    rw [Instruction.csrNumber, numbered]
    omega
  have silent : access insn core.hart.view = none := by simp only [access, named]
  have exchanged := exchanged_eq core.hart small number_eq update value
  have effect : effect? insn pc.toNat 0 core.hart.view =
      ((readCsr? core.hart.view number).bind fun old =>
        (updateCsr? core.hart.view number update insn.rs1 old value.toNat).map (old, ·)).map
          fun exchanged => ⟨some exchanged.1, pc.toNat + insn.len, exchanged.2⟩ := by
    simp only [effect?, named, numbered, Int.toNat_natCast, given]
    cases readCsr? core.hart.view number with
    | none => rfl
    | some old =>
      simp only [Option.bind_some, Option.bind_eq_bind]
      cases updateCsr? core.hart.view number update insn.rs1 old value.toNat <;> rfl
  rw [Execute.csr_eq rd]
  rw [← exchanged] at effect
  cases found : Execute.exchanged? core.hart insn update value with
  | none =>
    rw [found] at effect
    refine meets_refused (fun _ _ same => by cases same) fun attached raw made => ?_
    rw [silent] at made
    obtain ⟨rfl, rfl⟩ := made
    exact effect
  | some exchanged =>
    rw [found] at effect
    have retired : Execute.retired exchanged.2 insn.rd (some exchanged.1) =
        Execute.retired exchanged.2 insn.rd ((some (exchanged.1.toNat : Int)).map (BitVec.ofInt 64)) := by
      rw [Option.map_some, word_eq]
    rw [Option.elim_some, retired]
    exact meets_finish rd silent effect (after_eq pc insn.len)

theorem meets_value {word : Word} {flow : Flow} {value target : Int} (known : insn.rd < 32)
    (silent : access insn core.hart.view = none)
    (effect : effect? insn pc.toNat 0 core.hart.view = some ⟨some value, target, core.hart.view⟩)
    (same : word = BitVec.ofInt 64 value) (leads : flow.target pc insn.len = BitVec.ofInt 64 target) :
    Meets bus insn pc core (Execute.finish insn.rd (some word) flow core) := by
  rw [Execute.finish_eq known, same]
  exact meets_finish known silent effect leads

theorem meets_bare {flow : Flow} {target : Int} (known : insn.rd < 32) (silent : access insn core.hart.view = none)
    (effect : effect? insn pc.toNat 0 core.hart.view = some ⟨none, target, core.hart.view⟩)
    (leads : flow.target pc insn.len = BitVec.ofInt 64 target) :
    Meets bus insn pc core (Execute.finish insn.rd none flow core) := by
  rw [Execute.finish_eq known]
  exact meets_finish known silent effect leads

theorem execute_meets (narrow : bus.Narrow) (fits : { insn with len := 4 }.Fits) :
    Meets bus insn pc core (execute bus insn pc core) := by
  obtain ⟨op, rd, rs1, rs2, imm, len⟩ := insn
  obtain ⟨first, second, third, -, operands⟩ := fits
  dsimp only at first second third
  have a : core.hart.view.x rs1 = core.hart.regs[rs1].toNat := Hart.view_x second
  have b : core.hart.view.x rs2 = core.hart.regs[rs2].toNat := Hart.view_x third
  have after := after_eq pc len
  rw [execute_known second third]
  unfold Instruction.action
  cases op with
  | lui => exact meets_value first rfl rfl rfl after
  | auipc => exact meets_value first rfl rfl (moved_eq pc imm) after
  | jal => exact meets_value first rfl rfl after (moved_eq pc imm)
  | jalr =>
    have target := even_eq core.hart.regs[rs1] imm
    rw [← a] at target
    exact meets_value first rfl rfl after target
  | branch condition =>
    have decision := taken_eq condition core.hart.regs[rs1] core.hart.regs[rs2]
    rw [← a, ← b] at decision
    refine meets_bare first rfl rfl ?_
    dsimp only
    rw [decision]
    split
    · exact moved_eq pc imm
    · exact after
  | load op =>
    have place : address ⟨.load op, rd, rs1, rs2, imm, len⟩ core.hart.view =
        (core.hart.regs[rs1] + Word.ofImmediate imm).toNat := address_eq second
    refine meets_load narrow first rfl ?_
    simp only [access, place, loadWidth_eq]
  | store op =>
    have place : address ⟨.store op, rd, rs1, rs2, imm, len⟩ core.hart.view =
        (core.hart.regs[rs1] + Word.ofImmediate imm).toNat := address_eq second
    refine meets_store first rfl ?_
    simp only [access, place, storeWidth_eq, b]
  | immediate op =>
    obtain ⟨-, range⟩ := operands
    have value := arithmeticImmediate_eq op imm core.hart.regs[rs1]
      (fun whole => by simpa only [whole, Option.isSome_none, Bool.false_eq_true, if_false] using range)
      (fun shift => by simpa only [shift, if_true] using range)
    rw [← a] at value
    exact meets_value first rfl rfl value after
  | register op =>
    have value := arithmetic_eq op core.hart.regs[rs1] core.hart.regs[rs2]
    rw [← a, ← b] at value
    exact meets_value first rfl rfl value after
  | immediateW op =>
    obtain ⟨-, range⟩ := operands
    have value := arithmeticWordImmediate_eq op imm core.hart.regs[rs1]
      (fun shift => by simpa only [shift, if_true] using range)
    dsimp only
    rw [value, ← a]
    exact meets_value first rfl rfl rfl after
  | registerW op =>
    have value := arithmeticWord_eq op core.hart.regs[rs1] core.hart.regs[rs2]
    rw [← a, ← b] at value
    exact meets_value first rfl rfl value after
  | fence => exact meets_bare first rfl rfl after
  | fenceI => exact meets_bare first rfl rfl after
  | wfi => exact meets_bare first rfl rfl after
  | ecall => exact meets_refused (fun _ _ same => by cases same) fun _ _ _ => rfl
  | ebreak => exact meets_refused (fun _ _ same => by cases same) fun _ _ _ => rfl
  | mret =>
    have status : { core.hart.view with mstatus := returned core.hart.mstatus.toNat } =
        { core.hart with mstatus := Hart.unstackInterruptEnable core.hart.mstatus }.view := by
      simp only [Hart.view, returned_eq]
    have effect : effect? ⟨.mret, rd, rs1, rs2, imm, len⟩ pc.toNat 0 core.hart.view =
        some ⟨none, core.hart.mepc.toNat, { core.hart with mstatus := Hart.unstackInterruptEnable core.hart.mstatus }.view⟩ := by
      rw [← status]
      rfl
    show Meets bus _ pc core (Execute.trapReturn rd core)
    rw [Execute.trapReturn_eq]
    exact meets_finish first rfl effect (word_eq core.hart.mepc).symm
  | csr update source =>
    obtain ⟨-, positive, below⟩ := operands
    obtain ⟨number, rfl⟩ := Int.eq_ofNat_of_zero_le positive
    refine meets_csr first (Int.ofNat_lt.mp below) rfl rfl ?_
    cases source with
    | register => exact a
    | field => exact (Nat.mod_eq_of_lt (Nat.lt_trans second (by decide))).symm

end Reference

theorem Bytes.value_lt (bytes : List UInt8) : value bytes < 1 <<< (8 * bytes.length) := by
  induction bytes with
  | nil => exact Nat.one_pos
  | cons byte rest ih =>
    have low := byte.toNat_lt
    have more : 1 <<< (8 * (rest.length + 1)) = 256 * 1 <<< (8 * rest.length) := by
      rw [Nat.one_shiftLeft, Nat.one_shiftLeft, Nat.mul_succ, Nat.pow_add, Nat.mul_comm]
    rw [value, List.length_cons, more]
    omega

theorem Bytes.word_lt {bytes : List UInt8} {count : Nat} (length : bytes.length ≤ count) :
    (BitVec.ofNat 64 (value bytes)).toNat < 1 <<< (8 * count) := by
  have small := value_lt bytes
  have wider : 1 <<< (8 * bytes.length) ≤ 1 <<< (8 * count) := by
    rw [Nat.one_shiftLeft, Nat.one_shiftLeft]
    exact Nat.pow_le_pow_right (by decide) (Nat.mul_le_mul_left 8 length)
  rw [BitVec.toNat_ofNat]
  exact Nat.lt_of_le_of_lt (Nat.mod_le _ _) (Nat.lt_of_lt_of_le small wider)

theorem Bus.narrow_of_ends {bus : Bus σ} (ends : ∀ va width s, Ends (bus.load va width) s
    (fun answer _ => ∀ word, answer = .ok word → word.toNat < 1 <<< (8 * width.bytes)) fun _ _ => True) : bus.Narrow :=
  fun va width s word _ loaded => (ends va width s).answer loaded word rfl

theorem FlatMemory.bus_narrow : FlatMemory.bus.Narrow := by
  refine Bus.narrow_of_ends fun va width s => ?_
  have length : (s.device.bytes.extract va.toNat (va.toNat + width.bytes)).toList.length ≤ width.bytes := by
    rw [Array.length_toList, Array.size_extract]
    omega
  simp only [FlatMemory.bus, ends_bind, ends_get]
  split
  · rintro word ⟨⟩
    exact Bytes.word_lt length
  · rintro word ⟨⟩

theorem Probe.codeBus_narrow : Probe.codeBus.toBus.Narrow := by
  intro va width s word t loaded
  change Probe.onMemory (FlatMemory.bus.load va width) s = _ at loaded
  unfold Probe.onMemory at loaded
  split at loaded
  · rename_i answered
    cases loaded
    exact FlatMemory.bus_narrow _ _ _ _ _ answered
  · cases loaded

theorem DataSide.codeBus_narrow (space : AddressSpace) (fetch : Nat) (codeFrames : List Nat) :
    (DataSide.codeBus space fetch codeFrames).toBus.Narrow := by
  refine Bus.narrow_of_ends fun va width s => ?_
  show Ends (DataSide.load space va width) s _ _
  unfold DataSide.load
  rw [ends_bind]
  refine .intro (fun answer t _ => ?_) fun _ _ _ => trivial
  cases answer with
  | error fault => rintro word ⟨⟩
  | ok pa =>
    dsimp only
    rw [ends_bind, DataSide.ends_onEngine, Engine.ends_readRam]
    refine ⟨fun answer got => ?_, fun _ _ => trivial⟩
    cases answer with
    | error range => rintro word ⟨⟩
    | ok bytes =>
      obtain ⟨-, -, rfl⟩ := Ram.read_ok got
      rintro word ⟨⟩
      exact Bytes.word_lt (Nat.le_of_eq (by rw [Ram.readBytes, List.length_map, List.length_range]))

-- Over a bus that answers within the bytes asked for, a decoded instruction retires exactly when the reference says so,
-- and then with the state and the next address that it says: the view of a hart leaves nothing out. All buses here
-- answer so.
theorem execute_matches_reference :
    (∀ {σ : Type} (bus : Bus σ) (bytes : List UInt8) (insn : Instruction) (pc : Word) (core after : Core σ) (next : Nat),
      Instruction.decode bytes = .ok insn → bus.Narrow →
        ((∃ flow, execute bus insn pc core = .ok (.ok flow) after ∧ (flow.target pc insn.len).toNat = next) ↔
          Reference.Retires bus insn pc core after next)) ∧
    (∀ hart other : Hart, hart.view = other.view → hart = other) ∧
    FlatMemory.bus.Narrow ∧ Probe.codeBus.toBus.Narrow ∧
    ∀ space fetch codeFrames, (DataSide.codeBus space fetch codeFrames).toBus.Narrow := by
  refine ⟨?_, fun _ _ => Hart.view_injective, FlatMemory.bus_narrow, Probe.codeBus_narrow, DataSide.codeBus_narrow⟩
  intro σ bus bytes insn pc core after next decoded narrow
  exact Reference.execute_meets narrow (Instruction.operands_fit decoded) after next

theorem jump_through_link :
    Instruction.decode [0xe7, 0x80, 0x00, 0x00] = .ok ⟨.jalr, 1, 1, 0, 0, 4⟩ ∧
    Reference.Retires FlatMemory.bus ⟨.jalr, 1, 1, 0, 0, 4⟩ 0x80
      ⟨(Hart.reset.put 1 0x1001), ⟨#[]⟩⟩ ⟨{ Hart.reset.put 1 0x84 with instret := 1 }, ⟨#[]⟩⟩ 0x1000 := by
  have decoded : Instruction.decode [0xe7, 0x80, 0x00, 0x00] = .ok ⟨.jalr, 1, 1, 0, 0, 4⟩ := rfl
  obtain ⟨execution, -, narrow, -⟩ := execute_matches_reference
  exact ⟨decoded, (execution _ _ _ _ _ _ _ decoded narrow).mp ⟨.jump 0x1000, rfl, rfl⟩⟩

end TieredHart
