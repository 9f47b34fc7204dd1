import TieredHart.Proofs.BlockBytes
import TieredHart.Proofs.NoStaleCode
import TieredHart.Proofs.RecordStreams

namespace TieredHart

namespace MicroOp

-- Records for the instructions that bytes hold from one offset to another. Every record carries where it stands, whole;
-- an instruction may have a safepoint right before it, and the next one starts where it ends. An exit closes the list.
inductive Listing (bytes : List UInt8) : Nat → List MicroOp → List Instruction → Nat → Prop where
  | exit {micro : MicroOp} {offset : Nat} (kind : micro.kind = .exit) (place : micro.pcOffset.toNat = offset) :
      Listing bytes offset [micro] [] offset
  | insn {micro : MicroOp} {offset finish : Nat} {insn : Instruction} {rest : List MicroOp} {insns : List Instruction}
      (executes : micro.Executes) (place : micro.pcOffset.toNat = offset) (holds : micro.instruction? = some insn)
      (decoded : Instruction.decode (bytes.drop offset) = .ok insn)
      (further : Listing bytes (offset + insn.len) rest insns finish) :
      Listing bytes offset (micro :: rest) (insn :: insns) finish
  | safepoint {micro next : MicroOp} {offset finish : Nat} {rest : List MicroOp} {insns : List Instruction}
      (kind : micro.kind = .safepoint) (place : micro.pcOffset.toNat = offset) (before : next.Executes)
      (further : Listing bytes offset (next :: rest) insns finish) :
      Listing bytes offset (micro :: next :: rest) insns finish

-- A branch back as the record at an index: only the exit follows it. It is a direct branch that ends on the page, and
-- taken it goes on at a safepoint that stands where it branches to.
structure ClosesLoop (pageEnd : Nat) (micros : List MicroOp) (k : Nat) (micro : MicroOp) (insn : Instruction)
    (header : MicroOp) : Prop where
  last : k + 2 = micros.length
  holds : micro.instruction? = some insn
  direct : insn.role = .directBranch
  onPage : micro.pcOffset.toNat + insn.len ≤ pageEnd
  goesOn : micros[micro.aux.toNat]? = some header
  safepoint : header.kind = .safepoint
  target : (header.pcOffset.toNat : Int) = micro.pcOffset.toNat + insn.imm

end MicroOp

structure HostCode.Shaped (taken : Snapshot) (maxInsns : Nat) (code : HostCode) (micros : List MicroOp)
    (insns : List Instruction) : Prop where
  stream : MicroOp.Stream code.code micros
  listing : MicroOp.Listing taken.bytes 0 micros insns code.guestLen
  count : code.insnCount = insns.length
  least : 1 ≤ code.insnCount
  most : code.insnCount ≤ maxInsns
  short : code.guestLen ≤ 4098
  straight : ∀ insn ∈ insns.dropLast, insn.role = .sequential
  loops : code.hasLoop = true ↔ ∃ micro ∈ micros, micro.kind = .loopBranch
  closes : ∀ k micro, micros[k]? = some micro → micro.kind = .loopBranch →
    ∃ insn header, MicroOp.ClosesLoop (Page.rest taken.entryPa) micros k micro insn header
  -- Every index of a record fits the field that names one.
  indexed : micros.length ≤ 65536

namespace Body

variable {pageEnd more offset : Nat} {bytes : List UInt8} {body : Body}

theorem scanFrom_length (pageEnd more offset : Nat) (bytes : List UInt8) :
    (scanFrom pageEnd more offset bytes).insns.length ≤ more := by
  induction more generalizing offset bytes with
  | zero => exact Nat.le_refl 0
  | succ more ih =>
    generalize scanned : scanFrom pageEnd (more + 1) offset bytes = body
    cases scanFrom_look scanned with
    | stop => exact Nat.zero_le _
    | last => exact Nat.succ_le_succ (Nat.zero_le _)
    | follow => exact Nat.succ_le_succ (ih ..)

theorem scanFrom_first (starts : offset < pageEnd) {insn : Instruction} (decoded : Instruction.decode bytes = .ok insn) :
    (scanFrom pageEnd (more + 1) offset bytes).insns ≠ [] := by
  obtain ⟨-, low, high, rest, rfl, len, there⟩ := Instruction.decode_ok decoded
  have measured : Instruction.needs (low :: high :: rest) = insn.len := len.symm
  rw [scanFrom_decoded more starts (measured ▸ there)
    (measured ▸ Instruction.decode_take decoded (Nat.le_refl _))]
  split <;> simp

namespace Scanned

theorem guestLen_bound (scanned : Scanned bytes pageEnd body) (even : pageEnd % 2 = 0) :
    body.guestLen ≤ pageEnd + 2 := by
  rw [guestLen_eq]
  cases count : body.insns.length with
  | zero =>
    rw [scanned.start]
    exact Nat.zero_le _
  | succ k =>
    obtain ⟨insn, -, line⟩ := scanned.lines (k := k) (by omega)
    have starts := line.starts
    have place := (scanned.offsets (k := k) (by omega)).2.2
    have length := (Instruction.decode_legal line.decoded).len
    rw [line.next]
    omega

theorem straight (scanned : Scanned bytes pageEnd body) :
    ∀ insn ∈ (body.insns.map (·.2)).dropLast, insn.role = .sequential := by
  intro insn member
  obtain ⟨k, there⟩ := List.mem_iff_getElem?.mp member
  rw [List.getElem?_dropLast] at there
  split at there
  · rename_i inner
    rw [List.length_map] at inner
    rw [List.getElem?_map] at there
    obtain ⟨⟨o, found⟩, placed, rfl⟩ := Option.map_eq_some_iff.mp there
    exact ((scanned.line k o found placed).inner (by omega)).1
  · cases there

end Scanned
end Body

namespace Compile

open ThreadedCode (Builder control_offset insnRecord_instruction insnRecord_kind insnRecord_offset insnRecord_loop
  loop_header)
open MicroOp (Listing ClosesLoop)

variable {header : Option Nat} {poll interval pageEnd k o j : Nat} {last : Bool} {insn : Instruction} {code : Array UInt8}
  {bytes : List UInt8} {body : Body}

theorem Placed.listing (placed : Placed (MicroOp.decode? code) header poll interval k last o insn) (near : o < 65536)
    (decoded : Instruction.decode (bytes.drop o) = .ok insn) {micros : List MicroOp} {insns : List Instruction} {finish : Nat}
    (rest : ∀ j, MicroOp.decode? code (startAt header interval (k + 1) + j) = micros[j]?)
    (further : Listing bytes (o + insn.len) micros insns finish) :
    ∃ all, (∀ j, MicroOp.decode? code (startAt header interval k + j) = all[j]?) ∧
      startAt header interval k + all.length = startAt header interval (k + 1) + micros.length ∧
      Listing bytes o all (insn :: insns) finish := by
  have legal := Instruction.decode_legal decoded
  have listed : Listing bytes o (insnRecord (labelAt header interval (k + 1)) last o insn :: micros) (insn :: insns) finish :=
    .insn (insnRecord_kind ..) (insnRecord_offset insn _ _ near) (insnRecord_instruction _ _ legal) decoded further
  have next : startAt header interval (k + 1) = insnAt header interval k + 1 := startAt_succ k
  by_cases due : guarded header interval k = true
  · have first := insnAt_guarded due
    refine ⟨Builder.safepointRecord poll o :: insnRecord (labelAt header interval (k + 1)) last o insn :: micros, ?_, ?_,
      .safepoint rfl (control_offset _ _ near) (insnRecord_kind ..) listed⟩
    · intro j
      rcases j with _ | _ | j
      · exact placed.safepoint due
      · rw [Nat.zero_add, ← first]
        exact placed.insn
      · rw [List.getElem?_cons_succ, List.getElem?_cons_succ, ← rest, next, first]
        congr 1
        omega
    · rw [List.length_cons, List.length_cons]
      omega
  · have first := insnAt_open due
    refine ⟨insnRecord (labelAt header interval (k + 1)) last o insn :: micros, ?_, ?_, listed⟩
    · intro j
      rcases j with _ | j
      · rw [Nat.add_zero, ← first]
        exact placed.insn
      · rw [List.getElem?_cons_succ, ← rest, next, first]
        congr 1
        omega
    · rw [List.length_cons]
      omega

-- Behind any number of instructions, the records that are left list the instructions that are left. The induction goes
-- back from the exit.
theorem Laid.listing (laid : Laid code poll interval body) (scanned : body.Scanned bytes pageEnd) (page : pageEnd ≤ 4096)
    {left : Nat} (split : k + left = body.insns.length) :
    ∃ micros, (∀ j, MicroOp.decode? code (startAt body.loopHeader? interval k + j) = micros[j]?) ∧
      startAt body.loopHeader? interval k + micros.length = startAt body.loopHeader? interval body.insns.length + 1 ∧
      Listing bytes (body.offsetAt k) micros ((body.insns.drop k).map (·.2)) body.guestLen := by
  induction left generalizing k with
  | zero =>
    obtain rfl : k = body.insns.length := by omega
    have bounds := scanned.offsets (Nat.le_refl _)
    have near : body.guestLen < 65536 := by
      rw [Body.Scanned.guestLen_eq]
      omega
    refine ⟨[.control .exit (UInt16.ofNat body.guestLen) 0], ?_, rfl, ?_⟩
    · intro j
      cases j with
      | zero => exact laid.exit
      | succ j => exact MicroOp.decode_beyond (by rw [laid.size]; omega)
    · rw [List.drop_length, ← Body.Scanned.guestLen_eq]
      exact .exit rfl (control_offset _ _ near)
  | succ left ih =>
    obtain ⟨insn, there, line⟩ := scanned.lines (k := k) (by omega)
    obtain ⟨micros, rest, length, further⟩ := ih (k := k + 1) (by omega)
    have starts := line.starts
    rw [line.next] at further
    obtain ⟨all, records, longer, listed⟩ :=
      (laid.placed k _ insn there).listing (by omega) line.decoded rest further
    have front : body.insns.drop k = (body.offsetAt k, insn) :: body.insns.drop (k + 1) := by
      obtain ⟨inside, same⟩ := List.getElem?_eq_some_iff.mp there
      rw [List.drop_eq_getElem_cons inside, same]
    rw [front]
    exact ⟨all, records, longer.trans length, listed⟩

theorem Laid.branch_last (laid : Laid code poll interval body) {micro : MicroOp}
    (there : MicroOp.decode? code j = some micro) (kind : micro.kind = .loopBranch) :
    ∃ k insn, k + 1 = body.insns.length ∧ j = insnAt body.loopHeader? interval k ∧
      body.insns[k]? = some (body.offsetAt k, insn) ∧
      micro = insnRecord (labelAt body.loopHeader? interval (k + 1)) (k + 1 = body.insns.length) (body.offsetAt k) insn := by
  obtain ⟨k, o, insn, line, rfl, rfl⟩ := laid.executes there (.inr kind)
  obtain ⟨-, -, final, -⟩ := insnRecord_loop kind
  obtain rfl := Body.offsetAt_of line
  exact ⟨k, insn, of_decide_eq_true final, rfl, line, rfl⟩

theorem Laid.closes (laid : Laid code poll interval body) (scanned : body.Scanned bytes pageEnd) (page : pageEnd ≤ 4096)
    {micros : List MicroOp} (stream : MicroOp.Stream code micros) {micro : MicroOp} (there : micros[j]? = some micro)
    (kind : micro.kind = .loopBranch) : ∃ insn header, ClosesLoop pageEnd micros j micro insn header := by
  rw [← stream.record] at there
  obtain ⟨k, insn, final, rfl, line, rfl⟩ := laid.branch_last there kind
  obtain ⟨h, headed, inside, direct, target, aux⟩ := loop_header scanned page line kind
  obtain ⟨-, -, -, stays, -⟩ := Body.loopHeader_some headed
  obtain ⟨head, headLine, headPlace⟩ := scanned.lines inside
  have branch := scanned.line k _ insn line
  have legal := Instruction.decode_legal branch.decoded
  have starts := branch.starts
  have headStarts := headPlace.starts
  have place := insnRecord_offset insn (labelAt body.loopHeader? interval (k + 1)) (k + 1 = body.insns.length)
    (show body.offsetAt k < 65536 by omega)
  refine ⟨insn, Builder.safepointRecord (max poll 1) (body.offsetAt h), ?_, insnRecord_instruction _ _ legal, direct, ?_, ?_,
    rfl, ?_⟩
  · have size := stream.size
    have next : startAt body.loopHeader? interval (k + 1) = insnAt body.loopHeader? interval k + 1 := startAt_succ k
    rw [laid.size, ← final] at size
    omega
  · rw [place]
    apply Nat.le_of_not_lt
    intro beyond
    rw [(branch.crossing final).mpr beyond] at stays
    cases stays
  · rw [← stream.record, aux]
    exact (laid.placed h _ head headLine).safepoint (by simp [guarded, headed])
  · have safepoint : (Builder.safepointRecord (max poll 1) (body.offsetAt h)).pcOffset.toNat = body.offsetAt h :=
      control_offset _ _ (by omega)
    rw [place, safepoint]
    exact target

theorem Laid.loops (laid : Laid code poll interval body) (scanned : body.Scanned bytes pageEnd) (page : pageEnd ≤ 4096)
    {micros : List MicroOp} (stream : MicroOp.Stream code micros) :
    body.loopHeader?.isSome = true ↔ ∃ micro ∈ micros, micro.kind = .loopBranch := by
  constructor
  · intro looped
    obtain ⟨h, headed⟩ := Option.isSome_iff_exists.mp looped
    obtain ⟨-, -, -, -, inside, -⟩ := Body.loopHeader_some headed
    obtain ⟨k, final⟩ : ∃ k, k + 1 = body.insns.length := ⟨body.insns.length - 1, by omega⟩
    obtain ⟨insn, line, -⟩ := scanned.lines (k := k) (by omega)
    have label : labelAt body.loopHeader? interval (k + 1) = some (startAt body.loopHeader? interval h) := by
      unfold labelAt
      rw [headed, Option.bind_some, if_pos (by omega)]
    have placed := (laid.placed k _ insn line).insn
    rw [label, decide_eq_true final, stream.record] at placed
    exact ⟨_, List.mem_of_getElem? placed, rfl⟩
  · rintro ⟨micro, member, kind⟩
    obtain ⟨j, there⟩ := List.mem_iff_getElem?.mp member
    rw [← stream.record] at there
    obtain ⟨k, insn, -, -, line, rfl⟩ := laid.branch_last there kind
    obtain ⟨h, headed, -⟩ := loop_header scanned page line kind
    rw [headed]
    rfl

theorem compiled_shaped {maxInsns : Nat} {taken : Snapshot} {code : HostCode} (even : taken.entryPa % 2 = 0)
    (compiled : compile poll interval maxInsns taken = .ok (.ok code)) (filled : (Body.scan taken maxInsns).insns ≠ []) :
    ∃ micros insns, code.Shaped taken maxInsns micros insns := by
  have laid := compiled_laid compiled
  have fields := compiled_fields compiled
  have scanned := Body.scan_scanned taken maxInsns
  have capped := Body.scanFrom_length (Page.rest taken.entryPa) maxInsns 0 taken.bytes
  have page : Page.rest taken.entryPa ≤ 4096 := Nat.sub_le ..
  have evenRest : Page.rest taken.entryPa % 2 = 0 := by
    unfold Page.rest Page.offset
    omega
  change (Body.scan taken maxInsns).insns.length ≤ maxInsns at capped
  generalize Body.scan taken maxInsns = body at *
  have short := scanned.guestLen_bound evenRest
  have positive := List.length_pos_iff.mpr filled
  obtain ⟨micros, records, length, listing⟩ := laid.listing scanned page (Nat.zero_add _)
  have stream : MicroOp.Stream code.code micros := by
    have starts : startAt body.loopHeader? interval 0 = 0 := rfl
    simp only [starts, Nat.zero_add] at records length
    exact ⟨by rw [laid.size, length], records⟩
  have count : code.insnCount = body.insns.length := congrArg HostCode.insnCount fields
  have guestLen : code.guestLen = body.guestLen := congrArg HostCode.guestLen fields
  have hasLoop : code.hasLoop = body.loopHeader?.isSome := congrArg HostCode.hasLoop fields
  have indexed : micros.length ≤ 65536 := by
    have bound := startAt_bound body.loopHeader? interval body.insns.length
    have offsets := scanned.offsets (Nat.le_refl _)
    omega
  rw [scanned.start, List.drop_zero] at listing
  exact ⟨micros, body.insns.map (·.2), {
    stream := stream
    listing := guestLen ▸ listing
    count := by rw [count, List.length_map]
    least := by omega
    most := by omega
    short := by omega
    straight := scanned.straight
    loops := hasLoop ▸ laid.loops scanned page stream
    closes := fun _ _ there kind => laid.closes scanned page stream there kind
    indexed := indexed }⟩

end Compile

-- A snapshot that begins with an instruction is compiled, whatever the two intervals are, and its code is in shape; any
-- other is refused.
theorem Compile.snapshot_shaped {request : CompileRequest} {engine after : Engine} {taken : Snapshot}
    (captured : Engine.capture request engine = .ok (.ok taken) after) {config : Config} (valid : config.Valid) (poll : Nat) :
    (∀ insn, Instruction.decode taken.bytes = .ok insn → ∃ code micros insns,
      compile poll config.safepointInterval config.maxBlockInsns taken = .ok (.ok code) ∧
        code.Shaped taken config.maxBlockInsns micros insns) ∧
    (∀ fault, Instruction.decode taken.bytes = .error fault →
      compile poll config.safepointInterval config.maxBlockInsns taken = .ok (.error (.empty taken.entryPa))) := by
  obtain ⟨-, took⟩ := (Engine.capture_captured request engine).answer captured
  have even : taken.entryPa % 2 = 0 := by cases took <;> assumption
  obtain ⟨more, cap⟩ : ∃ more, config.maxBlockInsns = more + 1 := Nat.exists_eq_succ_of_ne_zero (Nat.ne_of_gt valid.maxBlockInsns)
  have starts : 0 < Page.rest taken.entryPa := by
    unfold Page.rest Page.offset
    omega
  constructor
  · intro insn decoded
    have filled : (Body.scan taken config.maxBlockInsns).insns ≠ [] := by
      unfold Body.scan
      rw [cap]
      exact Body.scanFrom_first starts decoded
    rcases compile_laid poll config.safepointInterval config.maxBlockInsns taken with ⟨-, code, compiled, -⟩ | empty
    · obtain ⟨micros, insns, shaped⟩ := compiled_shaped even compiled filled
      exact ⟨code, micros, insns, compiled, shaped⟩
    · exact absurd (compile_refused empty) filled
  · intro fault refused
    rcases compile_laid poll config.safepointInterval config.maxBlockInsns taken with ⟨filled, -⟩ | empty
    · have scanned := Body.scan_scanned taken config.maxBlockInsns
      obtain ⟨insn, there, line⟩ := scanned.lines (List.length_pos_iff.mpr filled)
      have decoded := line.decoded
      rw [scanned.start, List.drop_zero, refused] at decoded
      cases decoded
    · exact empty

theorem Compile.pageEndLoop_shaped : Config.Valid { safepointInterval := 1 } ∧
    ∃ engine taken after code micros insns, Engine.setup {} Session.pageEndLoop = .ok (.ok engine) ∧
      Engine.capture ⟨8188, 0, none⟩ engine = .ok (.ok taken) after ∧ compile 1 1 512 taken = .ok (.ok code) ∧
      code.Shaped taken 512 micros insns ∧ insns.length = 2 ∧ micros.length = 5 ∧
      ∃ micro insn header, micros[3]? = some micro ∧ MicroOp.ClosesLoop 4 micros 3 micro insn header := by
  have computed : ∃ engine, Engine.setup {} Session.pageEndLoop = .ok (.ok engine) ∧
      ∃ taken after, Engine.capture ⟨8188, 0, none⟩ engine = .ok (.ok taken) after ∧
        taken.entryPa = 8188 ∧ taken.bytes = [0x7d, 0x14, 0x7d, 0xfc] ∧
        ∃ code, compile 1 1 512 taken = .ok (.ok code) ∧ code.hasLoop = true ∧ code.insnCount = 2 ∧ code.code.size = 80 := by
    decide +kernel
  obtain ⟨engine, built, taken, after, captured, entry, bytes, made, ran, loops, count, size⟩ := computed
  have valid : Config.Valid { safepointInterval := 1 } := rfl
  have decoded : Instruction.decode taken.bytes = .ok ⟨.immediate .addi, 8, 8, 0, -1, 2⟩ := by
    rw [bytes]
    rfl
  obtain ⟨code, micros, insns, compiled, shaped⟩ := (snapshot_shaped captured valid 1).1 _ decoded
  obtain rfl : made = code := by
    have same := ran.symm.trans compiled
    cases same
    rfl
  have length : micros.length = 5 := by
    have whole := shaped.stream.size
    omega
  obtain ⟨micro, member, kind⟩ := shaped.loops.mp loops
  obtain ⟨k, there⟩ := List.mem_iff_getElem?.mp member
  obtain ⟨insn, header, closes⟩ := shaped.closes k micro there kind
  obtain rfl : k = 3 := by
    have last := closes.last
    omega
  have rest : Page.rest taken.entryPa = 4 := by
    rw [entry]
    rfl
  exact ⟨valid, engine, taken, after, made, micros, insns, built, captured, ran, shaped, shaped.count.symm.trans count, length,
    micro, insn, header, there, rest ▸ closes⟩

end TieredHart
