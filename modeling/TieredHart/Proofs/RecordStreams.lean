import TieredHart.Proofs.Decoding

namespace TieredHart.MicroOp

variable {code : Array UInt8} {micros : List MicroOp} {k : Nat}

structure Stream (code : Array UInt8) (micros : List MicroOp) : Prop where
  size : code.size = 16 * micros.length
  record : ∀ k, decode? code k = micros[k]?

def encodeAll (micros : List MicroOp) : ByteBuffer := micros.foldl (fun buffer micro => micro.encode buffer) .empty

theorem foldl_encode (micros : List MicroOp) (buffer : ByteBuffer) :
    (micros.foldl (fun buffer micro => micro.encode buffer) buffer).bytes.toList =
      buffer.bytes.toList ++ micros.flatMap toRecord := by
  induction micros generalizing buffer with
  | nil => simp
  | cons micro rest ih =>
    have written : (micro.encode buffer).bytes.toList = buffer.bytes.toList ++ micro.toRecord :=
      Array.toList_appendList
    rw [List.foldl_cons, ih, written, List.flatMap_cons, List.append_assoc]

theorem encodeAll_toList (micros : List MicroOp) : (encodeAll micros).bytes.toList = micros.flatMap toRecord :=
  foldl_encode micros .empty

theorem flatMap_length (micros : List MicroOp) : (micros.flatMap toRecord).length = 16 * micros.length := by
  induction micros with
  | nil => rfl
  | cons micro rest ih =>
    rw [List.flatMap_cons, List.length_append, toRecord_length, ih, List.length_cons]
    omega

theorem flatMap_drop (micros : List MicroOp) (k : Nat) :
    (micros.flatMap toRecord).drop (16 * k) = (micros.drop k).flatMap toRecord := by
  induction k generalizing micros with
  | zero => rfl
  | succ k ih =>
    cases micros with
    | nil => simp
    | cons micro rest =>
      have further : 16 * (k + 1) = micro.toRecord.length + 16 * k := by
        rw [toRecord_length]
        omega
      rw [List.flatMap_cons, further, List.drop_length_add_append, ih, List.drop_succ_cons]

theorem encodeAll_stream (micros : List MicroOp) : Stream (encodeAll micros).bytes micros := by
  constructor
  · rw [← Array.length_toList, encodeAll_toList, flatMap_length]
  · intro k
    rw [decode_eq, encodeAll_toList, flatMap_drop]
    cases there : micros.drop k with
    | nil =>
      have behind : micros.length ≤ k := List.drop_eq_nil_iff.mp there
      rw [List.getElem?_eq_none behind]
      rfl
    | cons micro rest =>
      have first : micros[k]? = some micro := by
        rw [← List.head?_drop, there, List.head?_cons]
      rw [List.flatMap_cons, List.take_left' (toRecord_length micro), ofRecord_toRecord, first]

theorem fetch_within (code : Array UInt8) (reach : 16 * k + 16 < hostLimit) : fetch code k = .ok (decode? code k) := by
  have starts : ¬ hostLimit ≤ 16 * k := by omega
  unfold fetch checkedAdd
  rw [if_neg starts, if_pos reach]
  rfl

theorem fetch_between (before : List MicroOp) (micro : MicroOp) (behind : List MicroOp)
    (reach : 16 * before.length + 16 < hostLimit) :
    fetch (encodeAll (before ++ micro :: behind)).bytes before.length = .ok (some micro) := by
  rw [fetch_within _ reach, (encodeAll_stream _).record, List.getElem?_append_right (Nat.le_refl _), Nat.sub_self]
  rfl

-- Records come back as they were written, each at its place and none behind the last. A record of a decoded instruction
-- holds all of it: none of its registers, its shift amount or its immediate needs more room than a record has.
theorem streams_roundtrip :
    (∀ micros : List MicroOp, (encodeAll micros).size = 16 * micros.length ∧
      (∀ k, 16 * k + 16 < hostLimit → fetch (encodeAll micros).bytes k = .ok micros[k]?) ∧
      ∀ k, decode? (encodeAll micros).bytes k = micros[k]?) ∧
    ∀ (bytes : List UInt8) (insn : Instruction), Instruction.decode bytes = .ok insn →
      ∀ (kind : MicroKind) (pcOffset aux : UInt16),
        (∀ before behind, 16 * before.length + 16 < hostLimit →
          fetch (encodeAll (before ++ ofInstruction kind insn pcOffset aux :: behind)).bytes before.length =
            .ok (some (ofInstruction kind insn pcOffset aux))) ∧
        (ofInstruction kind insn pcOffset aux).instruction? = some insn ∧
        insn.rd < 32 ∧ insn.rs1 < 32 ∧ insn.rs2 < 32 ∧ (Int32.ofInt insn.imm).toInt = insn.imm ∧
        ∀ op, insn.op = .immediateW op → op ≠ .addiw → 0 ≤ insn.imm ∧ insn.imm < 32 := by
  constructor
  · intro micros
    have stream := encodeAll_stream micros
    refine ⟨stream.size, fun k reach => ?_, stream.record⟩
    rw [fetch_within _ reach, stream.record]
  · intro bytes insn decoded kind pcOffset aux
    have legal := Instruction.decode_legal decoded
    have imm : (Int32.ofInt insn.imm).toInt = insn.imm := Int32.toInt_ofInt_of_le legal.imm.1 legal.imm.2
    exact ⟨fun before behind => fetch_between before _ behind, instruction_ofInstruction legal kind pcOffset aux,
      legal.rd, legal.rs1, legal.rs2, imm, legal.shift⟩

-- A loop of the least immediate there is and the largest shift of a low half, between its safepoint and its exit.
def shiftingLoop : List MicroOp :=
  [control .safepoint 0 64, ofInstruction .insn ⟨.lui, 5, 0, 0, -0x80000000, 4⟩ 0 0,
   ofInstruction .insn ⟨.immediateW .sraiw, 6, 7, 0, 31, 4⟩ 4 0,
   ofInstruction .loopBranch ⟨.branch .ne, 0, 8, 0, -8, 2⟩ 8 0, control .exit 10 0]

theorem shiftingLoop_roundtrips :
    Instruction.decode [0xb7, 0x02, 0x00, 0x80] = .ok ⟨.lui, 5, 0, 0, -0x80000000, 4⟩ ∧
    Instruction.decode [0x1b, 0xd3, 0xf3, 0x41] = .ok ⟨.immediateW .sraiw, 6, 7, 0, 31, 4⟩ ∧
    (encodeAll shiftingLoop).size = 80 ∧
    fetch (encodeAll shiftingLoop).bytes 1 = .ok (some (ofInstruction .insn ⟨.lui, 5, 0, 0, -0x80000000, 4⟩ 0 0)) ∧
    (ofInstruction .insn ⟨.lui, 5, 0, 0, -0x80000000, 4⟩ 0 0).instruction? = some ⟨.lui, 5, 0, 0, -0x80000000, 4⟩ ∧
    (ofInstruction .insn ⟨.immediateW .sraiw, 6, 7, 0, 31, 4⟩ 4 0).instruction? = some ⟨.immediateW .sraiw, 6, 7, 0, 31, 4⟩ ∧
    fetch (encodeAll shiftingLoop).bytes 5 = .ok none := by
  have lui : Instruction.decode [0xb7, 0x02, 0x00, 0x80] = .ok ⟨.lui, 5, 0, 0, -0x80000000, 4⟩ := rfl
  have shift : Instruction.decode [0x1b, 0xd3, 0xf3, 0x41] = .ok ⟨.immediateW .sraiw, 6, 7, 0, 31, 4⟩ := rfl
  obtain ⟨streams, instructions⟩ := streams_roundtrip
  obtain ⟨size, fetched, -⟩ := streams shiftingLoop
  obtain ⟨placed, least, -⟩ := instructions _ _ lui .insn 0 0
  obtain ⟨-, largest, -⟩ := instructions _ _ shift .insn 4 0
  exact ⟨lui, shift, size, placed (shiftingLoop.take 1) (shiftingLoop.drop 2) (by decide), least, largest,
    fetched 5 (by decide)⟩

end TieredHart.MicroOp
