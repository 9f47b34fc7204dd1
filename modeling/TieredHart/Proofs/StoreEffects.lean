import TieredHart.Proofs.Courses
import TieredHart.Proofs.StoreCoverage

namespace TieredHart

namespace Ram

variable {ram : Ram} {pa : Nat} {data : List UInt8}

theorem write_fits (fits : ram.Fits) : ram.write pa data =
    .ok (if ram.Holds pa data.length then .ok (ram.writeBytes pa data) else .error ⟨pa, data.length⟩) := by
  unfold write
  rw [contains_fits fits]
  by_cases holds : ram.Holds pa data.length <;> simp [holds, bind, Except.bind, pure, Except.pure]

theorem writeBytes_inside {i : Nat} (holds : ram.Holds pa data.length) (inside : i < data.length) :
    (ram.writeBytes pa data).byte (pa + i) = data[i] := by
  unfold Holds size at holds
  have low : pa - ram.base ≤ pa + i - ram.base := by omega
  have high : pa + i - ram.base < pa - ram.base + data.length := by omega
  have written := Bytes.overwrite_inside ram.bytes (pa - ram.base) data (pa + i - ram.base) low high (by omega)
  have place : pa + i - ram.base - (pa - ram.base) = i := by omega
  rw [place, List.getElem?_eq_getElem inside] at written
  unfold byte writeBytes
  rw [Array.getD_eq_getD_getElem?, written]
  rfl

end Ram

namespace Cache

variable {cache : Cache}

theorem removeAll_count (keys : (cache.installed.map (·.entryPa)).Nodup) (pas : List Nat) :
    (cache.removeAll pas).1 + (cache.removeAll pas).2.installed.length = cache.installed.length := by
  induction pas generalizing cache with
  | nil => exact Nat.zero_add _
  | cons pa rest ih =>
    unfold removeAll
    cases removed : cache.remove pa .invalidated with
    | none => exact ih keys
    | some after =>
      obtain ⟨block, parts⟩ := remove_removed removed
      have others := ih (parts.keys keys)
      have one := (find_perm keys parts.found).length_eq
      rw [List.length_cons, ← parts.installed] at one
      show (after.removeAll rest).1 + 1 + (after.removeAll rest).2.installed.length = _
      omega

theorem dropFrame_count (keys : (cache.installed.map (·.entryPa)).Nodup) (f : Nat) :
    (cache.dropFrame f).1 + (cache.dropFrame f).2.installed.length = cache.installed.length := by
  have counted : ∀ pas, (removeAll { cache with frames := cache.frames.clearEntries f } pas).1 +
      (removeAll { cache with frames := cache.frames.clearEntries f } pas).2.installed.length = cache.installed.length :=
    removeAll_count keys
  unfold dropFrame
  dsimp only
  split <;> exact counted _

theorem dropFrame_sublist (cache : Cache) (f : Nat) : (cache.dropFrame f).2.installed.Sublist cache.installed := by
  unfold dropFrame
  dsimp only
  split <;> exact removeAll_installed .. ▸ List.filter_sublist

theorem framesWritten_cons (cache : Cache) (fetch : Option Nat) (f : Nat) (rest : List Nat) :
    cache.framesWritten fetch (f :: rest) =
      ((cache.frameWritten fetch f).1 + ((cache.frameWritten fetch f).2.framesWritten fetch rest).1,
        ((cache.frameWritten fetch f).2.framesWritten fetch rest).2) := rfl

structure MovedOn (fs : List Nat) (count : Nat) (cache after : Cache) : Prop where
  version : ∀ g, after.frames.version g =
    if g ∈ fs ∧ cache.frames.covers g = true then cache.frames.version g + 1 else cache.frames.version g
  arena : after.arena = cache.arena
  fewer : after.installed.Sublist cache.installed
  counted : count + after.installed.length = cache.installed.length

theorem framesWritten_movedOn (indexed : cache.Indexed) (fetch : Option Nat) {fs : List Nat} (once : fs.Nodup) :
    MovedOn fs (cache.framesWritten fetch fs).1 cache (cache.framesWritten fetch fs).2 := by
  induction fs generalizing cache with
  | nil => exact ⟨fun g => (if_neg (by simp)).symm, rfl, .refl _, Nat.zero_add _⟩
  | cons f rest ih =>
    obtain ⟨fresh, once⟩ := List.nodup_cons.mp once
    have sheds := dropFrame_sheds indexed.keys f
    have others := ih (frameWritten_indexed indexed fetch f) once
    have covers : ∀ g, (cache.frameWritten fetch f).2.frames.covers g = cache.frames.covers g :=
      fun g => congrFun (frameWritten_overwritten cache fetch f).1.covers g
    have version : ∀ g, (cache.frameWritten fetch f).2.frames.version g =
        if g = f ∧ cache.frames.covers f = true then cache.frames.version g + 1 else cache.frames.version g := by
      intro g
      rw [(frameWritten_frames cache fetch f).version, FrameTable.version_bump, sheds.toWithin.frames.covers,
        sheds.frames.version]
    refine ⟨fun g => (others.version g).trans ?_, others.arena.trans sheds.arena,
      others.fewer.trans (dropFrame_sublist cache f), ?_⟩
    · rw [covers, version]
      by_cases here : g = f
      · subst here
        simp [fresh]
      · simp [here]
    · have gone : (cache.frameWritten fetch f).1 + (cache.frameWritten fetch f).2.installed.length =
          cache.installed.length := dropFrame_count indexed.keys f
      have later := others.counted
      simp only [framesWritten_cons]
      omega

theorem MovedOn.removed {after : Cache} {fs : List Nat} {count : Nat} (moved : MovedOn fs count cache after)
    (keys : (cache.installed.map (·.entryPa)).Nodup) : ∃ removed : List Block, removed.Nodup ∧ count = removed.length ∧
      ∀ block, block ∈ removed ↔ block ∈ cache.installed ∧ block ∉ after.installed := by
  have distinct : cache.installed.Nodup :=
    List.Pairwise.of_map (·.entryPa) (fun _ _ differs same => differs (congrArg _ same)) keys
  have stayed : (cache.installed.filter (· ∈ after.installed)).Perm after.installed := by
    apply (List.perm_ext_iff_of_nodup (distinct.filter _) (distinct.sublist moved.fewer)).mpr
    intro block
    simpa using fun member => moved.fewer.subset member
  refine ⟨cache.installed.filter (· ∉ after.installed), distinct.filter _, ?_, fun block => by simp⟩
  have parts := List.length_eq_countP_add_countP (l := cache.installed) fun block => decide (block ∈ after.installed)
  have counted := moved.counted
  simp only [decide_eq_true_eq, List.countP_eq_length_filter, stayed.length_eq] at parts
  omega

end Cache

namespace Engine

variable {engine after : Engine} {cache : Cache} {pa len : Nat} {data : List UInt8} {fetch : Option Nat} {ram : Ram}

def Reaches (pa len f : Nat) : Prop := Page.frame pa ≤ f ∧ f ≤ Page.frame (pa + len - 1)

instance {pa len f : Nat} : Decidable (Reaches pa len f) := inferInstanceAs (Decidable (_ ∧ _))

theorem mem_framesOf_iff {f : Nat} (positive : 0 < len) : f ∈ framesOf pa len ↔ Reaches pa len f := by
  simp only [framesOf, Reaches, Page.frame, List.mem_range'_1]
  omega

-- All that a store changes, and that it changes nothing else that is kept for memory, frames and blocks.
structure Overwrites (pa : Nat) (data : List UInt8) (fetch : Option Nat) (engine : Engine) (effect : StoreEffect)
    (after : Engine) : Prop where
  base : after.ram.base = engine.ram.base
  size : after.ram.size = engine.ram.size
  written : ∀ i (inside : i < data.length), after.ram.byte (pa + i) = data[i]
  elsewhere : ∀ addr, engine.ram.base ≤ addr → addr < pa ∨ pa + data.length ≤ addr → after.ram.byte addr = engine.ram.byte addr
  version : ∀ f, after.cache.frames.version f =
    if Reaches pa data.length f then engine.cache.frames.version f + 1 else engine.cache.frames.version f
  heat : ∀ addr, after.cache.frames.heat addr =
    if Reaches pa data.length (Page.frame addr) then 0 else engine.cache.frames.heat addr
  state : ∀ f, after.cache.frames.state f =
    if fetch = some f ∧ Reaches pa data.length f then .smcDetected else engine.cache.frames.state f
  samePage : effect.samePage = true ↔ ∃ f, fetch = some f ∧ Reaches pa data.length f
  installed : ∀ block, block ∈ after.cache.installed ↔
    block ∈ engine.cache.installed ∧ ∀ f ∈ block.stamp.frames, ¬ Reaches pa data.length f
  code : ∀ block ∈ after.cache.installed, block.valid = true ∧ after.cache.code block = engine.cache.code block
  invalidated : ∃ removed : List Block, removed.Nodup ∧ effect.invalidated = removed.length ∧
    ∀ block, block ∈ removed ↔ block ∈ engine.cache.installed ∧ block ∉ after.cache.installed

theorem store_inside (fits : engine.ram.Fits) (filled : data ≠ []) (holds : engine.ram.Holds pa data.length)
    (fetch : Option Nat) : Ends (store pa data fetch) engine (fun answer after => ∃ effect journal, answer = .ok effect ∧
      after.ram = engine.ram.writeBytes pa data ∧
      after.cache = { (engine.cache.framesWritten fetch (framesOf pa data.length)).2 with journal := journal } ∧
      effect.invalidated = (engine.cache.framesWritten fetch (framesOf pa data.length)).1 ∧
      effect.samePage = (framesOf pa data.length).any fun frame => fetch = some frame) fun _ _ => False := by
  have below : ¬ hostLimit ≤ pa + data.length := by
    simp only [Ram.Fits] at fits
    simp only [Ram.Holds] at holds
    omega
  unfold store
  rw [if_neg (by simpa using filled), if_neg below, ends_bind, ends_get, Ram.write_fits fits, if_pos holds, ends_bind,
    ends_ofExcept_ok, ends_bind, ends_modifyGet]
  dsimp only
  split
  · exact ⟨_, _, rfl, rfl, rfl, rfl, rfl⟩
  · exact ⟨_, _, rfl, rfl, rfl, rfl, rfl⟩

theorem Operated.Keeps.tracked (keeps : Operated.Keeps ram engine) (aligned : ram.base % 4096 = 0) {f : Nat}
    (positive : 0 < len) (holds : ram.Holds pa len) (reached : Reaches pa len f) : engine.cache.frames.covers f = true := by
  have whole : ram.size % 4096 = 0 := ram.whole
  simp only [Reaches, Page.frame] at reached
  simp only [Ram.Holds] at holds
  apply (keeps.covers f).mpr
  omega

theorem version_reached (positive : 0 < len) (tracked : ∀ f, Reaches pa len f → cache.frames.covers f = true)
    (indexed : cache.Indexed) (fetch : Option Nat) (f : Nat) :
    (cache.framesWritten fetch (framesOf pa len)).2.frames.version f =
      if Reaches pa len f then cache.frames.version f + 1 else cache.frames.version f := by
  have once : (framesOf pa len).Nodup := List.nodup_range' ..
  refine ((Cache.framesWritten_movedOn indexed fetch once).version f).trans ?_
  simp only [mem_framesOf_iff positive]
  by_cases reached : Reaches pa len f
  · simp [reached, tracked f reached]
  · simp [reached]

theorem state_reached (positive : 0 < len) (tracked : ∀ f, Reaches pa len f → cache.frames.covers f = true)
    (fetch : Option Nat) (f : Nat) :
    (cache.framesWritten fetch (framesOf pa len)).2.frames.state f =
      if fetch = some f ∧ Reaches pa len f then .smcDetected else cache.frames.state f := by
  refine ((Cache.framesWritten_overwritten cache fetch (framesOf pa len)).1.state f).trans ?_
  simp only [mem_framesOf_iff positive]
  by_cases reached : Reaches pa len f
  · simp [reached, tracked f reached]
  · simp [reached]

theorem installed_reached (positive : 0 < len) (tracked : ∀ f, Reaches pa len f → cache.frames.covers f = true)
    (indexed : cache.Indexed) (fetch : Option Nat) (block : Block) :
    block ∈ (cache.framesWritten fetch (framesOf pa len)).2.installed ↔
      block ∈ cache.installed ∧ ∀ f ∈ block.stamp.frames, ¬ Reaches pa len f := by
  refine (Cache.framesWritten_members indexed fetch _).trans (and_congr_right fun _ => ?_)
  simp only [mem_framesOf_iff positive]
  exact ⟨fun apart f stamped reached => apart f reached (tracked f reached) stamped,
    fun apart f reached _ stamped => apart f stamped reached⟩

theorem store_overwrites (operated : Operated ram engine) (aligned : ram.base % 4096 = 0) (fits : ram.Fits)
    (filled : data ≠ []) (holds : ram.Holds pa data.length) (fetch : Option Nat) :
    ∃ effect after, store pa data fetch engine = .ok (.ok effect) after ∧ Overwrites pa data fetch engine effect after := by
  have keeps := operated.keeps
  have indexed := keeps.indexed
  have room : 0 < data.length := List.length_pos_iff.mpr filled
  have tracked : ∀ f, Reaches pa data.length f → engine.cache.frames.covers f = true :=
    fun f reached => keeps.tracked aligned room holds reached
  have holds' : engine.ram.Holds pa data.length := by
    simpa only [Ram.Holds, keeps.base, keeps.size] using holds
  have fits' : engine.ram.Fits := by
    simpa only [Ram.Fits, keeps.base, keeps.size] using fits
  obtain ⟨_, after, ran, effect, journal, rfl, memory, cache, count, same⟩ := (store_inside fits' filled holds' fetch).answers
  have once : (framesOf pa data.length).Nodup := List.nodup_range' ..
  have moved := Cache.framesWritten_movedOn indexed fetch once
  have overwritten := (Cache.framesWritten_overwritten engine.cache fetch (framesOf pa data.length)).1
  have final := Cache.framesWritten_indexed indexed fetch (framesOf pa data.length)
  refine ⟨effect, after, ran, ?_⟩
  constructor
  case base =>
    rw [memory]
    rfl
  case size =>
    rw [memory, Ram.writeBytes_size]
  case written =>
    intro i inside
    rw [memory]
    exact Ram.writeBytes_inside holds' inside
  case elsewhere =>
    intro addr low outside
    rw [memory]
    exact Ram.writeBytes_outside holds' low outside
  case version =>
    rw [cache]
    exact version_reached room tracked indexed fetch
  case heat =>
    intro addr
    rw [cache]
    refine (overwritten.heat addr).trans ?_
    simp only [mem_framesOf_iff room]
  case state =>
    rw [cache]
    exact state_reached room tracked fetch
  case samePage =>
    rw [same, List.any_eq_true]
    simp only [mem_framesOf_iff room, decide_eq_true_eq]
    exact exists_congr fun f => and_comm
  case installed =>
    rw [cache]
    exact installed_reached room tracked indexed fetch
  case code =>
    intro block member
    rw [cache] at member ⊢
    refine ⟨final.valid block member, ?_⟩
    unfold Cache.code
    rw [moved.arena]
  case invalidated =>
    rw [count, cache]
    exact moved.removed indexed.keys

-- Three pages: a loop at the end of the first, and an instruction across the other two.
def threePages : Ram :=
  ⟨0, (List.replicate 0xffc 0 ++ [0x7d, 0x14, 0x7d, 0xfc] ++ List.replicate 0xffe 0 ++ [0x93, 0x82, 0x12, 0x00] ++
    List.replicate 0xffe 0 : List UInt8).toArray,
    by simp only [List.size_toArray, List.length_append, List.length_replicate, List.length_cons, List.length_nil]⟩

theorem threePages_size : threePages.size = 0x3000 := by
  simp only [threePages, Ram.size, List.size_toArray, List.length_append, List.length_replicate, List.length_cons,
    List.length_nil]

theorem threePages_overwrites : ∃ engine effect after, Operated threePages engine ∧ engine.cache.installed.length = 2 ∧
    store 0x1fff [1, 2] (some 2) engine = .ok (.ok effect) after ∧ effect = ⟨1, true⟩ ∧
    after.cache.installed.length = 1 ∧ Overwrites 0x1fff [1, 2] (some 2) engine effect after := by
  have computed : ∃ new, setup {} threePages = .ok (.ok new) ∧
      ∃ block middle, fulfil ⟨0xffc, 0xffc, none⟩ new = .ok (.ok block) middle ∧
      ∃ block' engine, fulfil ⟨0x1ffe, 0x1ffe, some 0x2000⟩ middle = .ok (.ok block') engine ∧
      engine.cache.installed.length = 2 ∧
      ∃ effect after, store 0x1fff [1, 2] (some 2) engine = .ok (.ok effect) after ∧ effect = ⟨1, true⟩ ∧
        after.cache.installed.length = 1 := by
    decide +kernel
  obtain ⟨new, built, block, middle, first, block', engine, second, two, effect, after, ran, tight, one⟩ := computed
  have base : threePages.base = 0 := rfl
  have fits : threePages.Fits := by
    unfold Ram.Fits
    rw [base, threePages_size]
    decide
  have holds : threePages.Holds 0x1fff [1, 2].length := by
    unfold Ram.Holds
    rw [base, threePages_size]
    decide
  have filled : ([1, 2] : List UInt8) ≠ [] := by decide
  have operated : Operated threePages engine := .fulfil (.fulfil (.setup built) first) second
  obtain ⟨effect', after', ran', overwrites⟩ :=
    store_overwrites operated (by rw [base]) fits filled holds (some 2)
  rw [ran] at ran'
  cases ran'
  exact ⟨engine, effect, after, operated, two, ran, tight, one, overwrites⟩

theorem store_outside (fits : engine.ram.Fits) (filled : data ≠ []) (outside : ¬ engine.ram.Holds pa data.length)
    (fetch : Option Nat) :
    store pa data fetch engine =
      if pa + data.length < hostLimit then .ok (.error ⟨pa, data.length⟩) engine
      else .error (.storeEnd pa data.length) engine := by
  unfold store
  rw [if_neg (by simpa using filled)]
  by_cases below : pa + data.length < hostLimit
  · rw [if_pos below, if_neg (Nat.not_le.mpr below)]
    show (MonadExcept.ofExcept (engine.ram.write pa data) >>= _ : EngineM _) engine = _
    rw [Ram.write_fits fits, if_neg outside]
    rfl
  · rw [if_neg below, if_pos (Nat.not_lt.mp below)]
    rfl

end Engine

theorem AddressSpace.locate_found {σ : Type} {space : AddressSpace} {kind : Access} {va : Word} {place : Location}
    (found : space kind va = some place) (known : ∀ code, place.irq = some code → code < 64) (s : Attached σ) :
    ∃ lines, space.locate kind va s = .ok (.ok place.pa) { s with lines := lines } := by
  rw [locate_eq, found]
  dsimp only
  cases raised : place.irq with
  | none => exact ⟨s.lines, rfl⟩
  | some code =>
    refine ⟨s.lines ||| BitVec.twoPow 64 code, ?_⟩
    simp only [Lines.raised, Lines.mask, if_pos (known code raised)]
    rfl

theorem DataSide.store_unanswered {space : AddressSpace} {frame : Nat} {codeFrames : List Nat} {va value : Word}
    {width : Width} {place : Location} {s : Attached DataSide} (fits : s.device.engine.ram.Fits)
    (found : space .store va = some place) (known : ∀ code, place.irq = some code → code < 64)
    (outside : ¬ s.device.engine.ram.Holds place.pa width.bytes) :
    ∃ lines, store space frame codeFrames va width value s =
      if place.pa + width.bytes < hostLimit then .ok (.error (.storeAccess va)) { s with lines := lines }
      else .error (.storeEnd place.pa width.bytes) { s with lines := lines } := by
  obtain ⟨lines, located⟩ := AddressSpace.locate_found found known s
  refine ⟨lines, ?_⟩
  have filled : Bytes.ofNat width.bytes value.toNat ≠ [] := by
    rw [← List.length_pos_iff, Bytes.ofNat_length]
    cases width <;> decide
  have refused := Engine.store_outside fits filled (by rwa [Bytes.ofNat_length]) (some frame)
  rw [Bytes.ofNat_length] at refused
  unfold store
  rw [EStateM.bind_ok located]
  show EStateM.bind (onEngine (Engine.store place.pa _ (some frame))) _ { s with lines := lines } = _
  unfold EStateM.bind onEngine
  dsimp only
  rw [refused]
  by_cases below : place.pa + width.bytes < hostLimit
  · simp only [if_pos below]
    rfl
  · simp only [if_neg below]

namespace Engine

-- Stores by whoever embeds the engine and stores by code, outside memory: refused with nothing changed, unless the
-- range ends at the top of the host's addresses or beyond, which the host does not survive.
theorem outside_refused {engine : Engine} (fits : engine.ram.Fits) :
    (∀ pa data fetch, data ≠ [] → ¬ engine.ram.Holds pa data.length → store pa data fetch engine =
      if pa + data.length < hostLimit then .ok (.error ⟨pa, data.length⟩) engine
      else .error (.storeEnd pa data.length) engine) ∧
    ∀ (space : AddressSpace) frame codeFrames va width value lines exit place, space .store va = some place →
      (∀ code, place.irq = some code → code < 64) → ¬ engine.ram.Holds place.pa width.bytes →
      ∃ lines', DataSide.store space frame codeFrames va width value ⟨lines, engine, exit⟩ =
        if place.pa + width.bytes < hostLimit then .ok (.error (.storeAccess va)) ⟨lines', engine, exit⟩
        else .error (.storeEnd place.pa width.bytes) ⟨lines', engine, exit⟩ := by
  refine ⟨fun pa data fetch filled outside => store_outside fits filled outside fetch, ?_⟩
  intro space frame codeFrames va width value lines exit place found known outside
  exact DataSide.store_unanswered fits found known outside

def topStore : Ram := ⟨0, ([0x23, 0x3c, 0x00, 0xfe] ++ List.replicate 4092 0 : List UInt8).toArray, by decide +kernel⟩

theorem topStore_outside_refused : ∃ engine, setup {} topStore = .ok (.ok engine) ∧ engine.ram.Fits ∧
    store 0xfff [1, 2] none engine = .ok (.error ⟨0xfff, 2⟩) engine ∧
    ∃ lines, DataSide.store .bare 0 [] 0xfffffffffffffff0 .double 1 ⟨0, engine, false⟩ =
      .ok (.error (.storeAccess 0xfffffffffffffff0)) ⟨lines, engine, false⟩ := by
  have computed : ∃ engine, setup {} topStore = .ok (.ok engine) ∧ engine.ram.base + engine.ram.size < hostLimit ∧
      ¬ engine.ram.Holds 0xfff 2 ∧ ¬ engine.ram.Holds 0xfffffffffffffff0 8 := by
    decide +kernel
  obtain ⟨engine, built, fits, device, top⟩ := computed
  obtain ⟨embedded, coded⟩ := outside_refused fits
  exact ⟨engine, built, fits, embedded 0xfff [1, 2] none (by decide) device,
    coded .bare 0 [] 0xfffffffffffffff0 .double 1 0 false _ rfl nofun top⟩

theorem topStore_fails_host : ∃ engine, setup {} topStore = .ok (.ok engine) ∧ engine.ram.Fits ∧
    ¬ engine.ram.Holds 0xfffffffffffffff8 8 ∧
    store 0xfffffffffffffff8 [0, 0, 0, 0, 0, 0, 0, 0] none engine = .error (.storeEnd 0xfffffffffffffff8 8) engine ∧
    ∃ core, LoopM.run 9 .bare TrapHandler.machine none () ⟨Hart.reset, engine⟩ =
      .error (.storeEnd 0xfffffffffffffff8 8) core := by
  have computed : ∃ engine, setup {} topStore = .ok (.ok engine) ∧ engine.ram.base + engine.ram.size < hostLimit ∧
      ¬ engine.ram.Holds 0xfffffffffffffff8 8 ∧
      ∃ failure core, LoopM.run 9 .bare TrapHandler.machine none () ⟨Hart.reset, engine⟩ = .error failure core ∧
        failure = .storeEnd 0xfffffffffffffff8 8 := by
    decide +kernel
  obtain ⟨engine, built, fits, outside, failure, core, failed, rfl⟩ := computed
  exact ⟨engine, built, fits, outside, store_outside fits (by decide) outside none, core, failed⟩

end Engine
end TieredHart
