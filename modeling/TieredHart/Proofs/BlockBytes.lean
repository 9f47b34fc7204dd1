import TieredHart.Proofs.Chronicle
import TieredHart.Proofs.CompiledBlocks

namespace TieredHart

variable {writes : List (Nat × Nat)} {ram : Ram} {space : AddressSpace} {pc start va : Word} {pa len o more : Nat}
  {nextPa : Option Nat} {bytes : List UInt8} {insn : Instruction}

def Engine.Avoids (writes : List (Nat × Nat)) (f : Nat) : Prop := ∀ write ∈ writes, f ∉ framesOf write.1 write.2

instance {f : Nat} : Decidable (Engine.Avoids writes f) := inferInstanceAs (Decidable (∀ write ∈ writes, _))

theorem Engine.Avoids.append {later : List (Nat × Nat)} {f : Nat} :
    Avoids (later ++ writes) f ↔ Avoids later f ∧ Avoids writes f := List.forall_mem_append

-- An engine after code stored to it: memory has the same bytes on every frame that was avoided.
structure Engine.Spares (writes : List (Nat × Nat)) (engine after : Engine) : Prop where
  base : after.ram.base = engine.ram.base
  bytes : ∀ addr, engine.ram.base ≤ addr → Avoids writes (Page.frame addr) → after.ram.byte addr = engine.ram.byte addr
  size : after.ram.size = engine.ram.size
  counts : after.counts = engine.counts

namespace Ram

def halfword (ram : Ram) : Option Nat → List UInt8
  | some pa => if ram.Holds pa 2 then ram.readBytes pa 2 else []
  | none => []

def blockBytes (ram : Ram) (pa : Nat) (nextPa : Option Nat) : List UInt8 :=
  ram.readBytes pa (Page.rest pa) ++ ram.halfword nextPa

theorem blockBytes_drop (inside : o ≤ Page.rest pa) :
    (ram.blockBytes pa nextPa).drop o = ram.readBytes (pa + o) (Page.rest pa - o) ++ ram.halfword nextPa := by
  obtain ⟨rest, all⟩ := Nat.exists_eq_add_of_le inside
  simp only [blockBytes, all, readBytes_add, List.append_assoc, Nat.add_sub_cancel_left]
  exact List.drop_left' readBytes_length

end Ram

namespace Engine

variable {engine after : Engine}

theorem Spares.tells (frame : Nat) (engine : Engine) :
    engine.Tells frame fun writes after => engine.Spares writes after := by
  have same : engine.Spares [] engine := ⟨rfl, fun _ _ _ => rfl, rfl, rfl⟩
  refine ⟨same, fun pa data => ?_, fun _ _ _ spares => ⟨spares.base, spares.bytes, spares.size, spares.counts⟩⟩
  refine (store_done pa data (some frame) engine).mono ?_ fun _ _ failed => failed.1
  intro answer after done
  cases done with
  | empty blank =>
    subst blank
    exact same
  | refused got => exact same
  | wrote filled holds got noted =>
    have nonzero : data.length ≠ 0 := fun zero => filled (List.length_eq_zero_iff.mp zero)
    refine ⟨rfl, fun addr low avoids => ?_, Ram.writeBytes_size, rfl⟩
    rw [written, if_neg nonzero] at avoids
    apply Ram.writeBytes_outside holds low
    apply Decidable.byContradiction
    intro hit
    exact avoids _ (List.mem_singleton.mpr rfl) (mem_framesOf (by omega) (by omega))

namespace Spares

theorem trans {middle : Engine} {later : List (Nat × Nat)} (first : engine.Spares writes middle)
    (second : middle.Spares later after) : engine.Spares (later ++ writes) after := by
  refine ⟨second.base.trans first.base, fun addr low avoids => ?_, second.size.trans first.size,
    second.counts.trans first.counts⟩
  obtain ⟨late, early⟩ := Avoids.append.mp avoids
  exact (second.bytes addr (first.base ▸ low) late).trans (first.bytes addr low early)

theorem holds (spares : engine.Spares writes after) : after.ram.Holds pa len ↔ engine.ram.Holds pa len := by
  simp only [Ram.Holds, spares.base, spares.size]

theorem readBytes (spares : engine.Spares writes after) (low : engine.ram.base ≤ pa)
    (onPage : Page.offset pa + len ≤ 4096) (avoids : Avoids writes (Page.frame pa)) :
    after.ram.readBytes pa len = engine.ram.readBytes pa len := by
  apply Ram.readBytes_congr
  intro i inside
  have same : Page.frame (pa + i) = Page.frame pa := by
    simp only [Page.frame, Page.offset] at *
    omega
  exact spares.bytes _ (by omega) (same ▸ avoids)

theorem blockBytes (spares : engine.Spares writes after) (low : engine.ram.base ≤ pa)
    (here : Avoids writes (Page.frame pa)) (aligned : ∀ next, nextPa = some next → next % 4096 = 0)
    (there : ∀ next, nextPa = some next → Avoids writes (Page.frame next)) :
    after.ram.blockBytes pa nextPa = engine.ram.blockBytes pa nextPa := by
  have onPage : Page.offset pa + Page.rest pa ≤ 4096 := by
    simp only [Page.offset, Page.rest]
    omega
  have half : after.ram.halfword nextPa = engine.ram.halfword nextPa := by
    cases nextPa with
    | none => rfl
    | some next =>
      simp only [Ram.halfword, spares.holds]
      split
      · rename_i holds
        apply spares.readBytes holds.1 _ (there next rfl)
        have base := aligned next rfl
        simp only [Page.offset]
        omega
      · rfl
  simp only [Ram.blockBytes, half, spares.readBytes low onPage here]

end Spares

theorem capture_block (fits : engine.ram.Fits) (even : pa % 2 = 0) (free : engine.cache.contains pa = false)
    (holds : engine.ram.Holds pa (Page.rest pa)) : Ends (capture ⟨pa, va, nextPa⟩) engine
      (fun answer after => after = engine ∧ ∃ taken, answer = .ok taken ∧ taken.entryPa = pa ∧
        taken.bytes = engine.ram.blockBytes pa nextPa) fun _ _ => False := by
  have odd : ¬ pa % 2 = 1 := by omega
  unfold capture
  dsimp only
  rw [if_neg odd, ends_bind, ends_get, ends_bind, ends_get, free, if_neg Bool.false_ne_true, ends_bind, ends_readRam,
    Ram.read_fits fits, if_pos holds]
  simp only [Except.ok.injEq, forall_eq', reduceCtorEq, false_implies, implies_true, and_true]
  cases nextPa with
  | none => exact ⟨rfl, _, rfl, rfl, by simp [Ram.blockBytes, Ram.halfword]⟩
  | some next =>
    dsimp only
    rw [ends_bind, ends_readRam, Ram.read_fits fits]
    simp only [Except.ok.injEq, forall_eq', reduceCtorEq, false_implies, implies_true, and_true]
    by_cases there : engine.ram.Holds next 2
    · rw [if_pos there]
      exact ⟨rfl, _, rfl, rfl, by simp [Ram.blockBytes, Ram.halfword, there]⟩
    · rw [if_neg there]
      exact ⟨rfl, _, rfl, rfl, by simp [Ram.blockBytes, Ram.halfword, there]⟩

theorem compile_filled {taken : Snapshot}
    (filled : (Body.scan taken engine.config.maxBlockInsns).insns ≠ []) : Ends (compile taken) engine
      (fun answer _ => ∃ code, answer = .ok code ∧ Compile.compile engine.config.safepointInterval
        engine.config.safepointInterval engine.config.maxBlockInsns taken = .ok (.ok code)) fun _ _ => False := by
  unfold compile compileWith
  rw [ends_bind, ends_get, ends_bind, ends_get, ends_bind]
  rcases Compile.compile_laid engine.config.safepointInterval engine.config.safepointInterval engine.config.maxBlockInsns
    taken with ⟨-, code, compiled, -⟩ | empty
  · rw [compiled, ends_ofExcept_ok]
    exact ⟨code, rfl, rfl⟩
  · exact absurd (Compile.compile_refused empty) filled

end Engine

theorem Instruction.needs_append {low : List UInt8} (two : low.length = 2) (more : List UInt8) :
    needs (low ++ more) = lengthOf (Bytes.value low) := by
  rw [needs, List.take_left' two]

theorem Instruction.decode_needs (decoded : decode (bytes.take (needs bytes)) = .ok insn) : needs bytes = insn.len := by
  have length := (needs_of_decode decoded).1
  have least : min 2 (needs bytes) = 2 := by rcases needs_cases bytes <;> omega
  unfold needs at length least ⊢
  rw [List.take_take, least] at length
  exact length

theorem Instruction.decode_illegal {fault : Fault} (refused : decode bytes = .error fault) :
    ∃ encoding, fault = .illegalInstruction encoding := by
  unfold decode illegal at refused
  grind

namespace Body

variable {pageEnd : Nat}

theorem scanFrom_cut (starts : o < pageEnd) (short : bytes.length < Instruction.needs bytes) :
    scanFrom pageEnd (more + 1) o bytes = ⟨[], o, .pageBoundary, false⟩ := by
  rcases bytes with _ | ⟨low, _ | ⟨high, rest⟩⟩
  · simp [scanFrom]
  · simp [scanFrom]
  · have less : (List.take (Instruction.lengthOf (Bytes.value [low, high])) (low :: high :: rest)).length <
        Instruction.lengthOf (Bytes.value [low, high]) := by
      rw [List.length_take]
      exact Nat.lt_of_le_of_lt (Nat.min_le_right _ _) short
    simp only [scanFrom, Nat.not_le.mpr starts, less, if_true, if_false]

theorem scanFrom_undecoded {fault : Fault} (starts : o < pageEnd) (there : Instruction.needs bytes ≤ bytes.length)
    (refused : Instruction.decode (bytes.take (Instruction.needs bytes)) = .error fault) :
    scanFrom pageEnd (more + 1) o bytes = ⟨[], o, .undecodable, false⟩ := by
  have two : 2 ≤ bytes.length := by rcases Instruction.needs_cases bytes <;> omega
  have full : ¬ (bytes.take (Instruction.needs bytes)).length < Instruction.needs bytes := by
    rw [List.length_take]
    omega
  generalize measured : Instruction.needs bytes = len at *
  rcases bytes with _ | ⟨low, _ | ⟨high, rest⟩⟩
  · simp at two
  · simp at two
  · have parcel : Instruction.lengthOf (Bytes.value [low, high]) = len := measured
    simp only [scanFrom, Nat.not_le.mpr starts, parcel, full, refused, if_false]

theorem scanFrom_decoded (more : Nat) (starts : o < pageEnd) (there : Instruction.needs bytes ≤ bytes.length)
    (decoded : Instruction.decode (bytes.take (Instruction.needs bytes)) = .ok insn) :
    scanFrom pageEnd (more + 1) o bytes =
      if pageEnd < o + insn.len || insn.isTerminal then
        ⟨[(o, insn)], o + insn.len, .ofRole insn.role, pageEnd < o + insn.len⟩
      else
        { scanFrom pageEnd more (o + insn.len) (bytes.drop insn.len) with
          insns := (o, insn) :: (scanFrom pageEnd more (o + insn.len) (bytes.drop insn.len)).insns } := by
  have two : 2 ≤ bytes.length := by rcases Instruction.needs_cases bytes <;> omega
  have full : ¬ (bytes.take (Instruction.needs bytes)).length < Instruction.needs bytes := by
    rw [List.length_take]
    omega
  have measured := Instruction.decode_needs decoded
  rw [measured] at decoded full
  rcases bytes with _ | ⟨low, _ | ⟨high, rest⟩⟩
  · simp at two
  · simp at two
  · have parcel : Instruction.lengthOf (Bytes.value [low, high]) = insn.len := measured
    simp only [scanFrom, Nat.not_le.mpr starts, parcel, full, decoded, if_false]

end Body

def AddressSpace.beyond (space : AddressSpace) (pc : Word) : Option Nat := (space .fetch pc.nextPage).map (·.pa)

theorem AddressSpace.beyond_aligned (granular : space.Granular) {next : Nat} (known : space.beyond pc = some next) :
    next % 4096 = 0 := by
  obtain ⟨place, found, rfl⟩ := Option.map_eq_some_iff.mp known
  rw [granular.offset _ _ _ found]
  exact Word.nextPage_aligned pc

-- What a fetch finds in the bytes that are left of a block: the instruction they begin with, or one that is cut off where
-- the page ends, which stops a block that has already begun. Any other refusal is not about the bytes.
inductive Fetched.Seen (ram : Ram) (pageEnd offset : Nat) (bytes : List UInt8) (first : Bool) : Fetched → Prop where
  | whole {crosses : Bool} {raw : List UInt8} (fits : ram.Fits) (there : Instruction.needs bytes ≤ bytes.length)
      (crossing : crosses = decide (pageEnd < offset + Instruction.needs bytes))
      (begins : raw = bytes.take (Instruction.needs bytes)) :
      Seen ram pageEnd offset bytes first (.ofBytes crosses raw)
  | cut (fits : ram.Fits) (short : bytes.length < Instruction.needs bytes) (later : first = false) :
      Seen ram pageEnd offset bytes first .stop
  | refused {fault : Fault} (other : ∀ encoding, fault ≠ .illegalInstruction encoding) :
      Seen ram pageEnd offset bytes first (.fault fault)

namespace Fetched.Seen

variable {low high more : List UInt8} {pageEnd : Nat} {first crosses : Bool}

theorem of_fault {bytes : List UInt8} {fault : Fault} (seen : Seen ram pageEnd o bytes first (.fault fault)) :
    (∀ encoding, fault ≠ .illegalInstruction encoding) ∨ ram.Fits ∧ Instruction.needs bytes ≤ bytes.length ∧
      Instruction.decode (bytes.take (Instruction.needs bytes)) = .error fault := by
  generalize same : Fetched.fault fault = fetched at seen
  cases seen with
  | whole fits there _ begins =>
    unfold ofBytes at same
    split at same
    · cases same
    · rename_i refused
      cases same
      exact .inr ⟨fits, there, begins ▸ refused⟩
  | cut => cases same
  | refused other =>
    cases same
    exact .inl other

theorem of_stop {bytes : List UInt8} (seen : Seen ram pageEnd o bytes first .stop) :
    ram.Fits ∧ bytes.length < Instruction.needs bytes ∧ first = false := by
  generalize same : Fetched.stop = fetched at seen
  cases seen with
  | whole =>
    unfold ofBytes at same
    split at same <;> cases same
  | cut fits short later => exact ⟨fits, short, later⟩
  | refused => cases same

theorem of_insn {bytes : List UInt8} {insn : Instruction} (seen : Seen ram pageEnd o bytes first (.insn insn crosses)) :
    ram.Fits ∧ Instruction.needs bytes ≤ bytes.length ∧ crosses = decide (pageEnd < o + Instruction.needs bytes) ∧
      Instruction.decode (bytes.take (Instruction.needs bytes)) = .ok insn := by
  generalize same : Fetched.insn insn crosses = fetched at seen
  cases seen with
  | whole fits there crossing begins =>
    unfold ofBytes at same
    split at same
    · rename_i decoded
      cases same
      exact ⟨fits, there, crossing, begins ▸ decoded⟩
    · cases same
  | cut => cases same
  | refused => cases same

theorem short (fits : ram.Fits) (two : low.length = 2) (length : Instruction.lengthOf (Bytes.value low) = 2)
    (inside : o + 2 ≤ pageEnd) : Seen ram pageEnd o (low ++ more) first (.ofBytes false low) := by
  have measured : Instruction.needs (low ++ more) = 2 := by rw [Instruction.needs_append two, length]
  refine .whole fits ?_ ?_ ?_
  · simp [measured, two]
  · rw [measured, eq_comm, decide_eq_false_iff_not]
    omega
  · rw [measured, List.take_left' two]

theorem long (fits : ram.Fits) (two : low.length = 2) (length : Instruction.lengthOf (Bytes.value low) = 4)
    (both : high.length = 2) (crossing : crosses = decide (pageEnd < o + 4)) :
    Seen ram pageEnd o (low ++ (high ++ more)) first (.ofBytes crosses (low ++ high)) := by
  have measured : Instruction.needs (low ++ (high ++ more)) = 4 := by rw [Instruction.needs_append two, length]
  refine .whole fits ?_ ?_ ?_
  · simp only [measured, List.length_append, two, both]
    omega
  · rw [measured, crossing]
  · rw [measured, ← List.append_assoc, List.take_left']
    simp [two, both]

theorem half (fits : ram.Fits) (two : low.length = 2) (length : Instruction.lengthOf (Bytes.value low) = 4) :
    Seen ram pageEnd o low false .stop := by
  have measured : Instruction.needs low = 4 := by
    rw [← List.append_nil low, Instruction.needs_append two, length]
  exact .cut fits (by rw [measured, two]; decide) rfl

end Fetched.Seen

namespace Engine

variable {engine : Engine}

theorem fetchHigh_seen {low more : List UInt8} {crosses first : Bool} {pageEnd addr : Nat} (two : low.length = 2)
    (length : Instruction.lengthOf (Bytes.value low) = 4) (crossing : crosses = decide (pageEnd < o + 4))
    (begins : engine.ram.Holds addr 2 → ∃ rest, more = engine.ram.readBytes addr 2 ++ rest) :
    Ends (fetchHigh pc crosses low addr) engine
      (fun fetched after => after = engine ∧ fetched.Seen engine.ram pageEnd o (low ++ more) first) fun _ _ => True := by
  unfold fetchHigh
  rw [ends_bind, ends_readRam]
  refine ⟨fun answer got => ?_, fun _ _ => trivial⟩
  cases answer with
  | error range => exact ⟨rfl, .refused (by simp)⟩
  | ok high =>
    obtain ⟨fits, holds, rfl⟩ := Ram.read_ok got
    obtain ⟨rest, rfl⟩ := begins holds
    exact ⟨rfl, .long fits two length Ram.readBytes_length crossing⟩

theorem fetchInsn_seen (granular : space.Granular) (leads : space.Leads start pa) (even : o % 2 = 0)
    (inside : o < Page.rest pa) (first : Bool) (engine : Engine) :
    Ends (fetchInsn space (start + BitVec.ofNat 64 o) (pa + o) first) engine
      (fun fetched after => after = engine ∧ fetched.Seen engine.ram (Page.rest pa) o
        ((engine.ram.blockBytes pa (space.beyond start)).drop o) first) fun _ _ => True := by
  have same : Page.frame (pa + o) = Page.frame pa := by
    simp only [Page.frame, Page.rest, Page.offset] at *
    omega
  have page := leads.page_next granular same
  obtain ⟨-, place, found, here⟩ := leads.next granular even same
  have offset := granular.offset _ _ _ found
  have paEven := leads.even granular
  -- At least a halfword is left of the page.
  obtain ⟨rest, left⟩ : ∃ rest, Page.rest pa - o = 2 + rest := by
    apply Nat.exists_eq_add_of_le
    simp only [Page.rest, Page.offset] at *
    omega
  rw [Ram.blockBytes_drop (Nat.le_of_lt inside), left, Ram.readBytes_add, List.append_assoc]
  unfold fetchInsn
  rw [ends_bind, ends_readRam]
  refine ⟨fun answer got => ?_, fun _ _ => trivial⟩
  cases answer with
  | error range => exact ⟨rfl, .refused (by simp)⟩
  | ok low =>
    obtain ⟨fits, -, rfl⟩ := Ram.read_ok got
    have two : (engine.ram.readBytes (pa + o) 2).length = 2 := Ram.readBytes_length
    generalize engine.ram.readBytes (pa + o) 2 = low at *
    dsimp only
    by_cases short : Instruction.lengthOf (Bytes.value low) = 2
    · rw [if_pos short]
      exact ⟨rfl, .short fits two short (by omega)⟩
    · have long : Instruction.lengthOf (Bytes.value low) = 4 := by
        have either := Instruction.lengthOf_cases (Bytes.value low)
        omega
      rw [if_neg short]
      by_cases last : Page.offset (pa + o) = 4094
      -- Its upper half is where the next page begins.
      · have spent : rest = 0 := by
          simp only [Page.rest, Page.offset] at *
          omega
        have atEnd : (start + BitVec.ofNat 64 o).pageOffset = 4094 := by
          rw [← last, ← here]
          exact offset.symm
        rw [if_pos last, Word.nextPage_of_last page atEnd, spent]
        cases known : space .fetch start.nextPage with
        | some location =>
          apply fetchHigh_seen two long
          · rw [eq_comm, decide_eq_true_iff]
            omega
          · intro holds
            exact ⟨[], by simp [AddressSpace.beyond, known, Ram.halfword, holds, Ram.readBytes]⟩
        | none =>
          have nothing : engine.ram.readBytes (pa + o + 2) 0 ++ engine.ram.halfword (space.beyond start) = [] := by
            simp [AddressSpace.beyond, known, Ram.halfword, Ram.readBytes]
          cases first with
          | true => exact ⟨rfl, .refused (by simp [PageFault.fault])⟩
          | false =>
            rw [nothing, List.append_nil]
            exact ⟨rfl, .half fits two long⟩
      -- Both halves are on the page.
      · obtain ⟨rest, rfl⟩ : ∃ more, rest = 2 + more := by
          apply Nat.exists_eq_add_of_le
          simp only [Page.rest, Page.offset] at *
          omega
        rw [if_neg last, ends_bind, ends_ofExcept]
        refine ⟨fun high moved => ?_, fun _ _ => trivial⟩
        cases checkedAdd_ok moved
        apply fetchHigh_seen two long
        · rw [eq_comm, decide_eq_false_iff_not]
          omega
        · intro _
          rw [Ram.readBytes_add, List.append_assoc]
          exact ⟨_, rfl⟩

end Engine

def AddressSpace.Untouched (space : AddressSpace) (start : Word) (pa : Nat) (writes : List (Nat × Nat)) : Prop :=
  Engine.Avoids writes (Page.frame pa) ∧ ∀ next ∈ space.beyond start, Engine.Avoids writes (Page.frame next)

instance : Decidable (space.Untouched start pa writes) := inferInstanceAs (Decidable (_ ∧ _))

theorem AddressSpace.Untouched.append {later : List (Nat × Nat)}
    (untouched : space.Untouched start pa (later ++ writes)) :
    space.Untouched start pa later ∧ space.Untouched start pa writes := by
  have here := Engine.Avoids.append.mp untouched.1
  have there := fun next known => Engine.Avoids.append.mp (untouched.2 next known)
  exact ⟨⟨here.1, fun next known => (there next known).1⟩, here.2, fun next known => (there next known).2⟩

end TieredHart
