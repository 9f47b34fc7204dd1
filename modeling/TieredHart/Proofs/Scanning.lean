import TieredHart.Compile
import TieredHart.Proofs.Decoding

namespace TieredHart.Body

variable {pageEnd more offset : Nat} {bytes : List UInt8} {body : Body}

inductive Look (pageEnd more offset : Nat) (bytes : List UInt8) : Body → Prop where
  | stop (ending : Ending) : Look pageEnd more offset bytes ⟨[], offset, ending, false⟩
  | last {insn : Instruction} (decoded : Instruction.decode bytes = .ok insn) (starts : offset < pageEnd)
      (final : pageEnd < offset + insn.len ∨ insn.isTerminal = true) :
      Look pageEnd more offset bytes
        ⟨[(offset, insn)], offset + insn.len, .ofRole insn.role, pageEnd < offset + insn.len⟩
  | follow {insn : Instruction} (decoded : Instruction.decode bytes = .ok insn) (starts : offset < pageEnd)
      (inside : offset + insn.len ≤ pageEnd) (sequential : insn.role = .sequential) :
      Look pageEnd more offset bytes
        { scanFrom pageEnd more (offset + insn.len) (bytes.drop insn.len) with
          insns := (offset, insn) :: (scanFrom pageEnd more (offset + insn.len) (bytes.drop insn.len)).insns }

theorem scanFrom_look (scanned : scanFrom pageEnd (more + 1) offset bytes = body) :
    Look pageEnd more offset bytes body := by
  subst scanned
  unfold scanFrom
  split
  · exact .stop _
  · rename_i starts
    split
    · rename_i low high rest
      dsimp only
      split
      · exact .stop _
      · split
        · exact .stop _
        · rename_i insn decoded
          obtain ⟨-, b0, b1, tail, begins, len, -⟩ := Instruction.decode_ok decoded
          have same : insn.len = Instruction.lengthOf (Bytes.value [low, high]) := by
            have two : 2 ≤ Instruction.lengthOf (Bytes.value [low, high]) := by
              have either := Instruction.lengthOf_cases (Bytes.value [low, high])
              omega
            obtain ⟨k, length⟩ := Nat.exists_eq_add_of_le' two
            rw [length, List.take_succ_cons, List.take_succ_cons] at begins
            simp only [List.cons.injEq] at begins
            rw [len, begins.1, begins.2.1]
          rw [← same] at decoded ⊢
          have whole : Instruction.decode (low :: high :: rest) = .ok insn := by
            rw [← List.take_append_drop insn.len (low :: high :: rest)]
            exact Instruction.decode_append decoded _
          split
          · rename_i final
            refine .last whole (by omega) ?_
            simpa using final
          · rename_i further
            simp only [Bool.or_eq_true, decide_eq_true_eq, not_or, Bool.not_eq_true] at further
            refine .follow whole (by omega) (by omega) ?_
            simpa [Instruction.isTerminal] using further.2
    · exact .stop _

def offsetAt (body : Body) (k : Nat) : Nat := ((body.insns[k]?).map (·.1)).getD body.guestLen

theorem offsetAt_of {k o : Nat} {insn : Instruction} (there : body.insns[k]? = some (o, insn)) : body.offsetAt k = o := by
  simp [offsetAt, there]

-- One instruction of a body: it was read where it stands, the next one starts where it ends, and only the last may be
-- other than sequential or reach beyond the page.
structure Line (bytes : List UInt8) (pageEnd : Nat) (body : Body) (k o : Nat) (insn : Instruction) : Prop where
  starts : o < pageEnd
  decoded : Instruction.decode (bytes.drop o) = .ok insn
  next : body.offsetAt (k + 1) = o + insn.len
  inner : k + 1 < body.insns.length → insn.role = .sequential ∧ o + insn.len ≤ pageEnd
  crossing : k + 1 = body.insns.length → (body.crosses = true ↔ pageEnd < o + insn.len)

theorem scanFrom_start (scanned : scanFrom pageEnd more offset bytes = body) : body.offsetAt 0 = offset := by
  cases more with
  | zero => subst scanned; rfl
  | succ more => cases scanFrom_look scanned <;> rfl

theorem scanFrom_empty (scanned : scanFrom pageEnd more offset bytes = body) (empty : body.insns = []) :
    body.crosses = false := by
  cases more with
  | zero => subst scanned; rfl
  | succ more =>
    cases scanFrom_look scanned with
    | stop ending => rfl
    | last => cases empty
    | follow => cases empty

theorem scanFrom_line {k o : Nat} {insn : Instruction}
    (scanned : scanFrom pageEnd more offset (bytes.drop offset) = body) (there : body.insns[k]? = some (o, insn)) :
    Line bytes pageEnd body k o insn := by
  induction more generalizing offset k body with
  | zero =>
    subst scanned
    simp [scanFrom] at there
  | succ more ih =>
    cases scanFrom_look scanned with
    | stop ending => simp at there
    | last decoded starts final =>
      cases k with
      | zero =>
        simp only [List.getElem?_cons_zero, Option.some.injEq, Prod.mk.injEq] at there
        obtain ⟨rfl, rfl⟩ := there
        exact ⟨starts, decoded, rfl, by simp, by simp⟩
      | succ k => simp at there
    | @follow head decoded starts inside sequential =>
      rw [List.drop_drop] at *
      generalize rescanned : scanFrom pageEnd more (offset + head.len) (bytes.drop (offset + head.len)) = rest at *
      cases k with
      | zero =>
        simp only [List.getElem?_cons_zero, Option.some.injEq, Prod.mk.injEq] at there
        obtain ⟨rfl, rfl⟩ := there
        refine ⟨starts, decoded, scanFrom_start rescanned, fun _ => ⟨sequential, inside⟩, fun alone => ?_⟩
        have empty : rest.insns = [] := by simpa using alone
        simp [scanFrom_empty rescanned empty, inside]
      | succ k =>
        simp only [List.getElem?_cons_succ] at there
        have line := ih rescanned there
        refine ⟨line.starts, line.decoded, line.next, fun more => line.inner (by simpa using more), fun last => ?_⟩
        exact line.crossing (by simpa using last)

structure Scanned (bytes : List UInt8) (pageEnd : Nat) (body : Body) : Prop where
  start : body.offsetAt 0 = 0
  line : ∀ k o insn, body.insns[k]? = some (o, insn) → Line bytes pageEnd body k o insn

theorem scan_scanned (snapshot : Snapshot) (maxInsns : Nat) :
    Scanned snapshot.bytes (Page.rest snapshot.entryPa) (scan snapshot maxInsns) :=
  ⟨scanFrom_start rfl, fun _ _ _ there => scanFrom_line rfl there⟩

namespace Scanned

variable {k : Nat}

theorem lines (scanned : Scanned bytes pageEnd body) (inside : k < body.insns.length) :
    ∃ insn, body.insns[k]? = some (body.offsetAt k, insn) ∧ Line bytes pageEnd body k (body.offsetAt k) insn := by
  have there : body.insns[k]? = some (body.insns[k].1, body.insns[k].2) := List.getElem?_eq_getElem inside
  have same := offsetAt_of there
  rw [same]
  exact ⟨_, there, scanned.line _ _ _ there⟩

theorem offsets (scanned : Scanned bytes pageEnd body) (within : k ≤ body.insns.length) :
    2 * k ≤ body.offsetAt k ∧ body.offsetAt k < pageEnd + 4 ∧ body.offsetAt k % 2 = 0 := by
  induction k with
  | zero => rw [scanned.start]; omega
  | succ k ih =>
    obtain ⟨insn, -, line⟩ := scanned.lines within
    have length := (Instruction.decode_legal line.decoded).len
    have starts := line.starts
    have before := ih (by omega)
    rw [line.next]
    omega

theorem guestLen_eq : body.guestLen = body.offsetAt body.insns.length := by simp [offsetAt]

end Scanned

theorem loopHeader_some {header : Nat} (looped : body.loopHeader? = some header) :
    ∃ last : Nat × Instruction, body.insns.getLast? = some last ∧ last.2.role = .directBranch ∧ body.crosses = false ∧
      header < body.insns.length ∧ (body.offsetAt header : Int) = last.1 + last.2.imm := by
  unfold loopHeader? at looped
  split at looped
  · cases looped
  · rename_i offset last found
    split at looped
    · rename_i closing
      obtain ⟨inside, target, -⟩ := List.findIdx?_eq_some_iff_getElem.mp looped
      refine ⟨(offset, last), found, closing.1, by simpa using closing.2, inside, ?_⟩
      simpa [offsetAt, List.getElem?_eq_getElem inside] using target
    · cases looped

end TieredHart.Body
