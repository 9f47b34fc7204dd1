import TieredHart.Engine.Compiling
import TieredHart.Proofs.Frames
import TieredHart.Proofs.Outcome
import TieredHart.Proofs.Scanning

namespace TieredHart

-- Every whole page of memory has a frame. A page that memory only reaches into has none.
structure Ram.Framed (ram : Ram) (frames : FrameTable) : Prop where
  base : frames.base = ram.baseFrame
  count : frames.frames.size = ram.pages

structure FrameTable.Alike (frames frames' : FrameTable) : Prop where
  base : frames'.base = frames.base
  count : frames'.frames.size = frames.frames.size
  version : ∀ f, frames'.version f = frames.version f

-- Versions tell where memory may have changed: bytes of a frame whose version stands are what they were.
structure Evolves (ram : Ram) (frames : FrameTable) (ram' : Ram) (frames' : FrameTable) : Prop where
  base : ram'.base = ram.base
  size : ram'.size = ram.size
  frameBase : frames'.base = frames.base
  frameCount : frames'.frames.size = frames.frames.size
  grows : ∀ f, frames.version f ≤ frames'.version f
  kept : ∀ pa, ram.base ≤ pa → frames.covers (Page.frame pa) = true →
    frames'.version (Page.frame pa) = frames.version (Page.frame pa) → ram'.byte pa = ram.byte pa

variable {ram ram' ram'' : Ram} {frames frames' frames'' : FrameTable} {pa len : Nat}

namespace FrameTable

theorem covers_same (base : frames'.base = frames.base) (count : frames'.frames.size = frames.frames.size) (f : Nat) :
    frames'.covers f = frames.covers f := by
  rw [Bool.eq_iff_iff, covers_iff, covers_iff, base, count]

namespace Alike

theorem refl (frames : FrameTable) : Alike frames frames := ⟨rfl, rfl, fun _ => rfl⟩

theorem trans (first : Alike frames frames') (second : Alike frames' frames'') : Alike frames frames'' :=
  ⟨second.base.trans first.base, second.count.trans first.count, fun f => (second.version f).trans (first.version f)⟩

theorem covers (alike : Alike frames frames') (f : Nat) : frames'.covers f = frames.covers f :=
  covers_same alike.base alike.count f

theorem register (pa f : Nat) : Alike frames (frames.register pa f) :=
  ⟨modify_base, modify_count, fun _ => version_register⟩

theorem unregister (pa f : Nat) : Alike frames (frames.unregister pa f) :=
  ⟨modify_base, modify_count, fun _ => version_unregister⟩

theorem clearEntries (f : Nat) : Alike frames (frames.clearEntries f) :=
  ⟨modify_base, modify_count, fun _ => version_clearEntries⟩

theorem setState (f : Nat) (state : FrameState) : Alike frames (frames.setState f state) :=
  ⟨modify_base, modify_count, fun _ => version_setState⟩

theorem warm (pa : Nat) : Alike frames (frames.warm pa) := ⟨modify_base, modify_count, fun _ => version_warm⟩

theorem cool (f : Nat) : Alike frames (frames.cool f) := ⟨modify_base, modify_count, fun _ => version_cool⟩

theorem foldl {step : FrameTable → Nat → FrameTable} (one : ∀ frames f, Alike frames (step frames f)) (fs : List Nat) :
    Alike frames (fs.foldl step frames) := by
  induction fs generalizing frames with
  | nil => exact refl frames
  | cons f rest ih => exact (one frames f).trans ih

end Alike
end FrameTable

namespace Ram.Framed

theorem alike (framed : ram.Framed frames) (alike : FrameTable.Alike frames frames') : ram.Framed frames' :=
  ⟨alike.base.trans framed.base, alike.count.trans framed.count⟩

theorem covers_iff (framed : ram.Framed frames) {f : Nat} :
    frames.covers f = true ↔ ram.base / 4096 ≤ f ∧ f < ram.base / 4096 + ram.size / 4096 := by
  rw [FrameTable.covers_iff, framed.base, framed.count]
  unfold Ram.baseFrame Ram.pages Page.frame
  omega

theorem covers_rest (framed : ram.Framed frames) (holds : ram.Holds pa (Page.rest pa)) :
    frames.covers (Page.frame pa) = true := by
  have whole : ram.size % 4096 = 0 := ram.whole
  rw [framed.covers_iff]
  unfold Ram.Holds Page.rest Page.offset at holds
  unfold Page.frame
  omega

theorem covers_aligned (framed : ram.Framed frames) (aligned : ram.base % 4096 = 0) (holds : ram.Holds pa len)
    (positive : 0 < len) : frames.covers (Page.frame pa) = true := by
  have whole : ram.size % 4096 = 0 := ram.whole
  rw [framed.covers_iff]
  unfold Ram.Holds at holds
  unfold Page.frame
  omega

end Ram.Framed

namespace Evolves

theorem alike (alike : FrameTable.Alike frames frames') : Evolves ram frames ram frames' :=
  ⟨rfl, rfl, alike.base, alike.count, fun f => Nat.le_of_eq (alike.version f).symm, fun _ _ _ _ => rfl⟩

theorem refl (ram : Ram) (frames : FrameTable) : Evolves ram frames ram frames := alike (.refl frames)

theorem covers (evolves : Evolves ram frames ram' frames') (f : Nat) : frames'.covers f = frames.covers f :=
  FrameTable.covers_same evolves.frameBase evolves.frameCount f

theorem trans (first : Evolves ram frames ram' frames') (second : Evolves ram' frames' ram'' frames'') :
    Evolves ram frames ram'' frames'' := by
  refine ⟨second.base.trans first.base, second.size.trans first.size, second.frameBase.trans first.frameBase,
    second.frameCount.trans first.frameCount, fun f => Nat.le_trans (first.grows f) (second.grows f), ?_⟩
  intro pa low covered same
  have between := first.grows (Page.frame pa)
  have above := second.grows (Page.frame pa)
  have near := first.kept pa low covered (by omega)
  have far := second.kept pa (by rw [first.base]; exact low) (by rw [first.covers]; exact covered) (by omega)
  exact far.trans near

theorem framed (evolves : Evolves ram frames ram' frames') (framed : ram.Framed frames) : ram'.Framed frames' := by
  constructor
  · rw [evolves.frameBase, framed.base, Ram.baseFrame, Ram.baseFrame, evolves.base]
  · rw [evolves.frameCount, framed.count, Ram.pages, Ram.pages, evolves.size]

theorem holds (evolves : Evolves ram frames ram' frames') : ram'.Holds pa len ↔ ram.Holds pa len := by
  unfold Ram.Holds
  rw [evolves.base, evolves.size]

theorem fits (evolves : Evolves ram frames ram' frames') (fits : ram.Fits) : ram'.Fits := by
  unfold Ram.Fits
  rw [evolves.base, evolves.size]
  exact fits

theorem readBytes (evolves : Evolves ram frames ram' frames') (low : ram.base ≤ pa) (onPage : len ≤ Page.rest pa)
    (covered : frames.covers (Page.frame pa) = true)
    (same : frames'.version (Page.frame pa) = frames.version (Page.frame pa)) :
    ram'.readBytes pa len = ram.readBytes pa len := by
  refine Ram.readBytes_congr fun i inside => ?_
  have page : Page.frame (pa + i) = Page.frame pa := by
    unfold Page.rest Page.offset at onPage
    unfold Page.frame
    omega
  exact evolves.kept _ (by omega) (by rw [page]; exact covered) (by rw [page]; exact same)

end Evolves

-- A snapshot that memory has not contradicted: as long as the version of a stamped frame stands, the bytes taken from it
-- are still there. Of a second frame that is not tracked nothing is known.
structure Snapshot.Tracks (ram : Ram) (frames : FrameTable) (taken : Snapshot) : Prop where
  fits : ram.Fits
  even : taken.entryPa % 2 = 0
  inside : ram.Holds taken.entryPa (Page.rest taken.entryPa)
  own : taken.stamp.first.frame = Page.frame taken.entryPa
  old : ∀ page ∈ taken.stamp.pages, page.version ≤ frames.version page.frame
  length : taken.bytes.length = Page.rest taken.entryPa + if taken.stamp.second.isSome then 2 else 0
  first : frames.version taken.stamp.first.frame = taken.stamp.first.version →
    taken.bytes.take (Page.rest taken.entryPa) = ram.readBytes taken.entryPa (Page.rest taken.entryPa)
  second : ∀ page, taken.stamp.second = some page → ram.Holds (page.frame * 4096) 2 ∧
    (frames.covers page.frame = true → frames.version page.frame = page.version →
      taken.bytes.drop (Page.rest taken.entryPa) = ram.readBytes (page.frame * 4096) 2)

namespace Snapshot

variable {taken : Snapshot}

theorem Tracks.evolves (tracks : taken.Tracks ram frames) (framed : ram.Framed frames)
    (evolves : Evolves ram frames ram' frames') : taken.Tracks ram' frames' := by
  have covered := framed.covers_rest tracks.inside
  refine ⟨evolves.fits tracks.fits, tracks.even, evolves.holds.mpr tracks.inside, tracks.own, ?_, tracks.length, ?_, ?_⟩
  · intro page member
    exact Nat.le_trans (tracks.old page member) (evolves.grows page.frame)
  · intro live
    have before := tracks.old _ (List.mem_cons_self ..)
    have grown := evolves.grows taken.stamp.first.frame
    rw [tracks.first (by omega)]
    rw [tracks.own] at *
    exact (evolves.readBytes tracks.inside.1 (Nat.le_refl _) covered (by omega)).symm
  · intro page stamped
    obtain ⟨inside, read⟩ := tracks.second page stamped
    refine ⟨evolves.holds.mpr inside, fun tracked live => ?_⟩
    have before := tracks.old page (by simp [Stamp.pages, stamped])
    have grown := evolves.grows page.frame
    have own : Page.frame (page.frame * 4096) = page.frame := by
      unfold Page.frame
      omega
    rw [evolves.covers] at tracked
    rw [read tracked (by omega)]
    refine (evolves.readBytes inside.1 ?_ (by rw [own]; exact tracked) (by rw [own]; omega)).symm
    unfold Page.rest Page.offset
    omega

end Snapshot

inductive Ram.Encodes (ram : Ram) (second : Option FrameVersion) (pa : Nat) (insn : Instruction) : Prop where
  | within {bytes : List UInt8} (onPage : Page.offset pa + insn.len ≤ 4096)
      (got : ram.read pa insn.len = .ok (.ok bytes)) (decoded : Instruction.decode bytes = .ok insn) :
      Encodes ram second pa insn
  | across {page : FrameVersion} {low high : List UInt8} (last : Page.offset pa = 4094) (long : insn.len = 4)
      (stamped : second = some page) (gotLow : ram.read pa 2 = .ok (.ok low))
      (gotHigh : ram.read (page.frame * 4096) 2 = .ok (.ok high))
      (decoded : Instruction.decode (low ++ high) = .ok insn) : Encodes ram second pa insn

theorem Ram.read_holds (fits : ram.Fits) (holds : ram.Holds pa len) :
    ram.read pa len = .ok (.ok (ram.readBytes pa len)) := by
  rw [Ram.read_fits fits, if_pos holds]

namespace Snapshot

variable {taken : Snapshot} {body : Body} {k o : Nat} {insn : Instruction}

theorem Tracks.encodes_within (tracks : taken.Tracks ram frames)
    (decoded : Instruction.decode (taken.bytes.drop o) = .ok insn)
    (onPage : o + insn.len ≤ Page.rest taken.entryPa)
    (live : frames.version taken.stamp.first.frame = taken.stamp.first.version) (second : Option FrameVersion) :
    ram.Encodes second (taken.entryPa + o) insn := by
  have holds := tracks.inside
  have same : (taken.bytes.drop o).take insn.len = ram.readBytes (taken.entryPa + o) insn.len := by
    rw [← Ram.readBytes_slice onPage, ← tracks.first live, List.drop_take, List.take_take,
      Nat.min_eq_left (by omega)]
  refine .within ?_ (Ram.read_holds tracks.fits ?_) (same ▸ Instruction.decode_take decoded (Nat.le_refl _))
  · unfold Page.rest Page.offset at onPage
    unfold Page.offset
    omega
  · unfold Page.rest Page.offset at onPage holds
    unfold Ram.Holds at holds ⊢
    omega

theorem Tracks.encodes_across (tracks : taken.Tracks ram frames)
    (decoded : Instruction.decode (taken.bytes.drop o) = .ok insn)
    (last : o + 2 = Page.rest taken.entryPa) (long : insn.len = 4)
    (live : ∀ page ∈ taken.stamp.pages, frames.version page.frame = page.version)
    (tracked : ∀ page, taken.stamp.second = some page → frames.covers page.frame = true) :
    ram.Encodes taken.stamp.second (taken.entryPa + o) insn := by
  obtain ⟨-, -, -, -, -, -, enough⟩ := Instruction.decode_ok decoded
  have holds := tracks.inside
  have length := tracks.length
  rw [List.length_drop, long] at enough
  cases stamped : taken.stamp.second with
  | none =>
    simp only [stamped] at length
    simp at length
    omega
  | some page =>
    obtain ⟨beyond, high⟩ := tracks.second page stamped
    have upper := high (tracked page stamped) (live page (by simp [Stamp.pages, stamped]))
    have lower := tracks.first (live _ (List.mem_cons_self ..))
    have tail : (ram.readBytes taken.entryPa (Page.rest taken.entryPa)).drop o = ram.readBytes (taken.entryPa + o) 2 := by
      rw [← last, Ram.readBytes_add, List.drop_left' Ram.readBytes_length]
    have halves : taken.bytes.drop o = ram.readBytes (taken.entryPa + o) 2 ++ ram.readBytes (page.frame * 4096) 2 := by
      rw [← tail, ← upper, ← lower, ← List.drop_append_of_le_length, List.take_append_drop]
      rw [List.length_take]
      omega
    refine .across ?_ long rfl (Ram.read_holds tracks.fits ?_) (Ram.read_holds tracks.fits beyond) (halves ▸ decoded)
    · unfold Page.rest Page.offset at last
      unfold Page.offset
      omega
    · unfold Ram.Holds at holds ⊢
      omega

theorem Tracks.encodes (tracks : taken.Tracks ram frames)
    (scanned : body.Scanned taken.bytes (Page.rest taken.entryPa)) (there : body.insns[k]? = some (o, insn))
    (live : ∀ page ∈ (Compile.stampOf taken body).pages, frames.version page.frame = page.version)
    (tracked : ∀ page, (Compile.stampOf taken body).second = some page → frames.covers page.frame = true) :
    ram.Encodes (Compile.stampOf taken body).second (taken.entryPa + o) insn := by
  have line := scanned.line k o insn there
  have inside := (List.getElem?_eq_some_iff.mp there).1
  by_cases crosses : Page.rest taken.entryPa < o + insn.len
  · have last : k + 1 = body.insns.length := by
      rcases Nat.lt_or_ge (k + 1) body.insns.length with more | done
      · have inner := (line.inner more).2
        omega
      · omega
    have stamp : Compile.stampOf taken body = taken.stamp := by
      unfold Compile.stampOf
      rw [(line.crossing last).mpr crosses]
      rfl
    have even := (scanned.offsets (k := k) (by omega)).2.2
    rw [Body.offsetAt_of there] at even
    have entryEven := tracks.even
    have len := (Instruction.decode_legal line.decoded).len
    have starts := line.starts
    rw [stamp] at live tracked ⊢
    unfold Page.rest Page.offset at crosses starts
    refine tracks.encodes_across line.decoded ?_ (by omega) live tracked
    unfold Page.rest Page.offset
    omega
  · exact tracks.encodes_within line.decoded (by omega) (live _ (List.mem_cons_self ..)) _

end Snapshot

namespace Engine

variable {engine : Engine} {good : Except OutOfRange (List UInt8) → Engine → Prop} {bad : Failure → Engine → Prop}

theorem ends_readRam : Ends (readRam pa len) engine good bad ↔
    (∀ bytes, engine.ram.read pa len = .ok bytes → good bytes engine) ∧
      ∀ failure, engine.ram.read pa len = .error failure → bad failure engine := by
  unfold readRam
  rw [ends_bind, ends_get, ends_ofExcept]

theorem tracks_page {pa : Nat} {va : Word} (fits : ram.Fits) (even : pa % 2 = 0) (inside : ram.Holds pa (Page.rest pa)) :
    Snapshot.Tracks ram frames ⟨pa, va, ram.readBytes pa (Page.rest pa),
      ⟨⟨Page.frame pa, frames.version (Page.frame pa)⟩, none⟩⟩ := by
  refine ⟨fits, even, inside, rfl, ?_, ?_, ?_, nofun⟩
  · intro page member
    cases List.mem_singleton.mp member
    exact Nat.le_refl _
  · simp
  · intro _
    exact List.take_of_length_le (Nat.le_of_eq Ram.readBytes_length)

theorem tracks_pages {pa next : Nat} {va : Word} (fits : ram.Fits) (even : pa % 2 = 0) (inside : ram.Holds pa (Page.rest pa))
    (aligned : next % 4096 = 0) (beyond : ram.Holds next 2) :
    Snapshot.Tracks ram frames ⟨pa, va, ram.readBytes pa (Page.rest pa) ++ ram.readBytes next 2,
      ⟨⟨Page.frame pa, frames.version (Page.frame pa)⟩, some ⟨Page.frame next, frames.version (Page.frame next)⟩⟩⟩ := by
  have base : Page.frame next * 4096 = next := by
    unfold Page.frame
    omega
  refine ⟨fits, even, inside, rfl, ?_, ?_, ?_, ?_⟩
  · intro page member
    rcases List.mem_cons.mp member with rfl | second
    · exact Nat.le_refl _
    · cases List.mem_singleton.mp second
      exact Nat.le_refl _
  · simp
  · intro _
    exact List.take_left' Ram.readBytes_length
  · rintro page ⟨⟩
    simp only [base]
    exact ⟨beyond, fun _ _ => List.drop_left' Ram.readBytes_length⟩

inductive Captured (request : CompileRequest) (engine : Engine) : Except Refusal Snapshot → Prop where
  | refused {refusal : Refusal} : Captured request engine (.error refusal)
  | page (fits : engine.ram.Fits) (even : request.entryPa % 2 = 0)
      (inside : engine.ram.Holds request.entryPa (Page.rest request.entryPa)) :
      Captured request engine (.ok ⟨request.entryPa, request.entryVa,
        engine.ram.readBytes request.entryPa (Page.rest request.entryPa),
        ⟨⟨Page.frame request.entryPa, engine.cache.frames.version (Page.frame request.entryPa)⟩, none⟩⟩)
  | pages {next : Nat} (fits : engine.ram.Fits) (even : request.entryPa % 2 = 0)
      (inside : engine.ram.Holds request.entryPa (Page.rest request.entryPa)) (named : request.nextPage = some next)
      (beyond : engine.ram.Holds next 2) :
      Captured request engine (.ok ⟨request.entryPa, request.entryVa,
        engine.ram.readBytes request.entryPa (Page.rest request.entryPa) ++ engine.ram.readBytes next 2,
        ⟨⟨Page.frame request.entryPa, engine.cache.frames.version (Page.frame request.entryPa)⟩,
          some ⟨Page.frame next, engine.cache.frames.version (Page.frame next)⟩⟩⟩)

theorem capture_captured (request : CompileRequest) (engine : Engine) : Ends (capture request) engine
    (fun answer after => after = engine ∧ Captured request engine answer)
    fun _ after => after = engine ∧ ¬ engine.ram.Fits := by
  unfold capture
  dsimp only
  by_cases odd : request.entryPa % 2 = 1
  · rw [if_pos odd]
    exact ⟨rfl, .refused⟩
  have even : request.entryPa % 2 = 0 := by omega
  rw [if_neg odd, ends_bind, ends_get, ends_bind, ends_get]
  by_cases there : engine.cache.contains request.entryPa = true
  · rw [if_pos there]
    exact ⟨rfl, .refused⟩
  rw [if_neg there, ends_bind, ends_readRam]
  refine ⟨fun answer got => ?_, fun failure failed => ⟨rfl, Ram.read_error failed⟩⟩
  cases answer with
  | error range => exact ⟨rfl, .refused⟩
  | ok bytes =>
    obtain ⟨fits, inside, rfl⟩ := Ram.read_ok got
    cases named : request.nextPage with
    | none => exact ⟨rfl, .page fits even inside⟩
    | some next =>
      simp only
      rw [ends_bind, ends_readRam]
      refine ⟨fun answer got => ?_, fun failure failed => ⟨rfl, Ram.read_error failed⟩⟩
      cases answer with
      | error range => exact ⟨rfl, .page fits even inside⟩
      | ok half =>
        obtain ⟨-, beyond, rfl⟩ := Ram.read_ok got
        exact ⟨rfl, .pages fits even inside named beyond⟩

theorem capture_tracks {request : CompileRequest} (aligned : ∀ next, request.nextPage = some next → next % 4096 = 0) :
    Ends (capture request) engine
      (fun answer after => after = engine ∧ ∀ taken, answer = .ok taken →
        taken.entryPa = request.entryPa ∧ taken.Tracks engine.ram engine.cache.frames)
      fun _ after => after = engine ∧ ¬ engine.ram.Fits := by
  refine (capture_captured request engine).weaken ?_
  rintro answer after ⟨same, captured⟩
  refine ⟨same, fun taken accepted => ?_⟩
  subst accepted
  cases captured with
  | page fits even inside => exact ⟨rfl, tracks_page fits even inside⟩
  | pages fits even inside named beyond => exact ⟨rfl, tracks_pages fits even inside (aligned _ named) beyond⟩

end Engine
end TieredHart
