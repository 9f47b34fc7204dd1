import TieredHart.Proofs.IndexAgreement

namespace TieredHart

theorem FrameTable.entries_untracked {table : FrameTable} {f : Nat} (untracked : table.covers f = false) :
    table.entries f = [] := by
  have absent : table.frame? f = none := by simpa [covers] using untracked
  unfold entries get
  rw [absent]
  rfl

namespace Cache

variable {cache : Cache} {block : Block}

theorem removeAll_installed (cache : Cache) (pas : List Nat) :
    (cache.removeAll pas).2.installed = cache.installed.filter (·.entryPa ∉ pas) := by
  induction pas generalizing cache with
  | nil => exact (List.filter_eq_self.mpr fun _ _ => by simp).symm
  | cons pa rest ih =>
    have parted : ∀ block : Block, decide (block.entryPa ∉ pa :: rest) =
        (decide (block.entryPa ∉ rest) && decide (block.entryPa ≠ pa)) := by
      intro block
      by_cases here : block.entryPa = pa <;> simp [here]
    simp only [parted]
    rw [← List.filter_filter]
    unfold removeAll
    cases removed : cache.remove pa .invalidated with
    | some after =>
      obtain ⟨block, parts⟩ := remove_removed removed
      rw [← parts.installed]
      exact ih after
    | none =>
      have away : cache.installed.filter (·.entryPa ≠ pa) = cache.installed := by
        refine List.filter_eq_self.mpr fun block member => decide_eq_true fun here => ?_
        have there : cache.contains pa = true := contains_iff.mpr (List.mem_map.mpr ⟨block, member, here⟩)
        obtain ⟨after, succeeded⟩ := remove_some there .invalidated
        rw [removed] at succeeded
        cases succeeded
      rw [away]
      exact ih cache

theorem dropFrame_members (indexed : cache.Indexed) (f : Nat) : block ∈ (cache.dropFrame f).2.installed ↔
    block ∈ cache.installed ∧ (cache.frames.covers f = true → f ∉ block.stamp.frames) := by
  have left : (cache.dropFrame f).2.installed = cache.installed.filter (·.entryPa ∉ cache.frames.entries f) := by
    unfold dropFrame
    dsimp only
    split <;> exact removeAll_installed _ _
  rw [left, List.mem_filter, decide_eq_true_iff]
  refine and_congr_right fun member => ?_
  cases covered : cache.frames.covers f with
  | false => simp [FrameTable.entries_untracked covered]
  | true =>
    -- The list names the block as often as its stamp names the frame.
    have count := indexed.listed f covered block.entryPa
    rw [find_member indexed.keys member, Option.elim_some] at count
    rw [← List.count_eq_zero, ← List.count_eq_zero, count]
    simp

theorem framesWritten_members (indexed : cache.Indexed) (fetch : Option Nat) (fs : List Nat) :
    block ∈ (cache.framesWritten fetch fs).2.installed ↔
      block ∈ cache.installed ∧ ∀ f ∈ fs, cache.frames.covers f = true → f ∉ block.stamp.frames := by
  induction fs generalizing cache with
  | nil => exact ⟨fun member => ⟨member, nofun⟩, And.left⟩
  | cons f rest ih =>
    have covers : ∀ g, (cache.frameWritten fetch f).2.frames.covers g = cache.frames.covers g := by
      intro g
      rw [(frameWritten_frames cache fetch f).covers]
      exact FrameTable.covers_modify.trans ((dropFrame_sheds indexed.keys f).toWithin.frames.covers g)
    have first : block ∈ (cache.frameWritten fetch f).2.installed ↔ _ := dropFrame_members indexed f
    have later := ih (frameWritten_indexed indexed fetch f)
    simp only [covers] at later
    rw [List.forall_mem_cons, ← and_assoc, ← first]
    exact later

end Cache

theorem Engine.store_members {engine after : Engine} {pa : Nat} {data : List UInt8} {fetch : Option Nat}
    {effect : StoreEffect} {block : Block} (indexed : engine.cache.Indexed) (filled : data ≠ [])
    (ran : store pa data fetch engine = .ok (.ok effect) after) : block ∈ after.cache.installed ↔
      block ∈ engine.cache.installed ∧
        ∀ f ∈ framesOf pa data.length, engine.cache.frames.covers f = true → f ∉ block.stamp.frames := by
  obtain ⟨-, -, same⟩ := (store_parts pa data fetch engine).answer ran
  rw [show (Deed.stored pa data (.ok effect)).touched = framesOf pa data.length from if_neg filled] at same
  rw [same.installed]
  exact Cache.framesWritten_members indexed fetch _

theorem Body.Scanned.beyond {body : Body} {bytes : List UInt8} {pageEnd : Nat} (scanned : body.Scanned bytes pageEnd)
    (long : pageEnd < body.guestLen) : body.crosses = true ∧ body.guestLen ≤ bytes.length := by
  rw [guestLen_eq] at long ⊢
  cases count : body.insns.length with
  | zero =>
    rw [count, scanned.start] at long
    omega
  | succ last =>
    obtain ⟨insn, -, line⟩ := scanned.lines (k := last) (by omega)
    obtain ⟨-, -, -, -, -, -, enough⟩ := Instruction.decode_ok line.decoded
    rw [List.length_drop] at enough
    have starts := line.starts
    rw [count, line.next] at long
    rw [line.next]
    exact ⟨(line.crossing count.symm).mpr long, by omega⟩

-- Where a byte of a block stands in memory: on the page of its entry, and what is too long for that at the start of the
-- second frame.
def Block.source? (block : Block) (o : Nat) : Option Nat :=
  if o < Page.rest block.entryPa then some (block.entryPa + o)
  else block.stamp.second.map fun page => page.frame * 4096 + (o - Page.rest block.entryPa)

-- The page that memory ends in when it does not start with a page. It is not whole, and so it has no frame.
def Ram.EndsIn (ram : Ram) (f : Nat) : Prop := ram.base % 4096 ≠ 0 ∧ f = Page.frame (ram.base + ram.size)

section Sources

variable {ram : Ram} {cache : Cache} {frames : FrameTable} {block : Block} {f o : Nat}

theorem Ram.Framed.untracked_end (framed : ram.Framed frames) (ends : ram.EndsIn f) : frames.covers f = false := by
  have whole : ram.size % 4096 = 0 := ram.whole
  obtain ⟨-, last⟩ := ends
  rw [← Bool.not_eq_true, framed.covers_iff]
  unfold Page.frame at last
  omega

theorem Ram.Framed.endsIn (framed : ram.Framed frames) (holds : ram.Holds (f * 4096) 2)
    (untracked : frames.covers f = false) : ram.EndsIn f := by
  have whole : ram.size % 4096 = 0 := ram.whole
  rw [← Bool.not_eq_true, framed.covers_iff] at untracked
  unfold Ram.Holds at holds
  unfold EndsIn Page.frame
  omega

theorem Cache.Sound.entry_covered (sound : cache.Sound ram) (framed : ram.Framed cache.frames)
    (member : block ∈ cache.installed) :
    block.stamp.first.frame = Page.frame block.entryPa ∧ cache.frames.covers (Page.frame block.entryPa) = true := by
  obtain ⟨code, taken, maxInsns, built⟩ := sound.built member
  rw [built.stamp, built.entryPa]
  exact ⟨built.tracks.own, framed.covers_rest built.tracks.inside⟩

theorem Cache.Sound.untracked_iff (sound : cache.Sound ram) (framed : ram.Framed cache.frames)
    (member : block ∈ cache.installed) (stamped : f ∈ block.stamp.frames) :
    cache.frames.covers f = false ↔ ram.EndsIn f := by
  refine ⟨fun untracked => ?_, framed.untracked_end⟩
  obtain ⟨own, covered⟩ := sound.entry_covered framed member
  obtain ⟨page, listed, rfl⟩ := List.mem_map.mp stamped
  rcases List.mem_cons.mp listed with rfl | second
  · rw [own, covered] at untracked
    cases untracked
  · obtain ⟨code, taken, maxInsns, built⟩ := sound.built member
    exact framed.endsIn (built.tracks.second page (built.second (by simpa using second))).1 untracked

theorem Cache.Sound.sourced (sound : cache.Sound ram) (framed : ram.Framed cache.frames) (member : block ∈ cache.installed)
    (inside : o < block.guestLen) : ∃ addr, block.source? o = some addr ∧ Page.frame addr ∈ block.stamp.frames ∧
      (o < Page.rest block.entryPa → Page.frame addr = Page.frame block.entryPa) := by
  obtain ⟨own, -⟩ := sound.entry_covered framed member
  unfold Block.source?
  by_cases onPage : o < Page.rest block.entryPa
  · have page : Page.frame (block.entryPa + o) = Page.frame block.entryPa := by
      unfold Page.rest Page.offset at onPage
      unfold Page.frame
      omega
    refine ⟨block.entryPa + o, if_pos onPage, ?_, fun _ => page⟩
    rw [page, ← own]
    exact List.mem_cons_self ..
  · obtain ⟨code, taken, maxInsns, built⟩ := sound.built member
    have scanned := Body.scan_scanned taken maxInsns
    have length := built.tracks.length
    have reach := (scanned.offsets (Nat.le_refl _)).2.1
    rw [← Body.Scanned.guestLen_eq] at reach
    rw [built.guestLen] at inside
    rw [built.entryPa] at onPage ⊢
    obtain ⟨crosses, enough⟩ := scanned.beyond (by omega)
    have stamp : block.stamp.second = taken.stamp.second := by
      rw [built.stamp]
      exact if_pos crosses
    cases second : taken.stamp.second with
    | none =>
      simp [second] at length
      omega
    | some page =>
      rw [second] at stamp
      have here : Page.frame (page.frame * 4096 + (o - Page.rest taken.entryPa)) = page.frame := by
        unfold Page.frame
        omega
      refine ⟨page.frame * 4096 + (o - Page.rest taken.entryPa), ?_, ?_, fun early => absurd early onPage⟩
      · rw [if_neg onPage, stamp]
        rfl
      · rw [here]
        simp [Stamp.frames, Stamp.pages, stamp]

end Sources

-- What a store does to the installed blocks, wherever memory starts. Blocks with a written frame leave, and with them
-- every byte in the range, except for the page that memory ends in: a block stays whatever is written there.
structure Engine.Swept (ram : Ram) (pa len : Nat) (engine after : Engine) : Prop where
  left : ∀ block, block ∈ after.cache.installed ↔
    block ∈ engine.cache.installed ∧ ∀ f ∈ block.stamp.frames, f ∈ framesOf pa len → ram.EndsIn f
  outside : ∀ block ∈ after.cache.installed, ∀ o < block.guestLen, ∃ addr, block.source? o = some addr ∧
    Page.frame addr ∈ block.stamp.frames ∧
    (addr < pa ∨ pa + len ≤ addr ∨ Page.rest block.entryPa ≤ o ∧ ram.EndsIn (Page.frame addr))
  tracked : ∀ block ∈ after.cache.installed, ∀ f ∈ block.stamp.frames, ¬ ram.EndsIn f →
    after.cache.frames.covers f = true ∧ block.entryPa ∈ after.cache.frames.entries f

theorem Engine.store_swept {engine after : Engine} {pa : Nat} {data : List UInt8} {fetch : Option Nat}
    {effect : StoreEffect} (sound : engine.Sound) (indexed : engine.cache.Indexed) (filled : data ≠ [])
    (ran : store pa data fetch engine = .ok (.ok effect) after) : Swept engine.ram pa data.length engine after := by
  have stored := (store_stored sound).answer ran
  have cache := stored.sound.cache
  have ends : ∀ f, after.ram.EndsIn f ↔ engine.ram.EndsIn f := by
    intro f
    unfold Ram.EndsIn
    rw [stored.evolves.base, stored.evolves.size]
  have left : ∀ block, block ∈ after.cache.installed ↔ block ∈ engine.cache.installed ∧
      ∀ f ∈ block.stamp.frames, f ∈ framesOf pa data.length → engine.ram.EndsIn f := by
    intro block
    rw [store_members indexed filled ran]
    refine and_congr_right fun member => ⟨fun away f stamped written => ?_, fun away f written covered stamped => ?_⟩
    · rw [← sound.cache.untracked_iff sound.framed member stamped, ← Bool.not_eq_true]
      exact fun covered => away f written covered stamped
    · rw [sound.framed.untracked_end (away f stamped written)] at covered
      cases covered
  refine ⟨left, ?_, ?_⟩
  · intro block member o inside
    obtain ⟨addr, source, stamped, early⟩ := cache.sourced stored.sound.framed member inside
    refine ⟨addr, source, stamped, ?_⟩
    by_cases range : pa ≤ addr ∧ addr < pa + data.length
    · have last := ((left block).mp member).2 _ stamped (mem_framesOf range.1 range.2)
      refine .inr (.inr ⟨Nat.le_of_not_lt fun onPage => ?_, last⟩)
      have covered := (cache.entry_covered stored.sound.framed member).2
      rw [← early onPage, stored.sound.framed.untracked_end ((ends _).mpr last)] at covered
      cases covered
    · omega
  · intro block member f stamped elsewhere
    rw [← ends, ← cache.untracked_iff stored.sound.framed member stamped, Bool.not_eq_false] at elsewhere
    obtain ⟨page, listed, rfl⟩ := List.mem_map.mp stamped
    exact ⟨elsewhere, cache.listed block member page listed elsewhere⟩

namespace Session

variable {start session after : Session}

theorem Step.does (step : Step session after) : ∃ deed, Engine.Does session.engine deed after.engine := by
  cases step with
  | capture _ ran => exact ⟨_, .capture ran⟩
  | compile _ ran => exact ⟨_, .compile ran⟩
  | publish _ ran => exact ⟨_, .publish ran⟩
  | store ran => exact ⟨_, .store ran⟩
  | reserve ran => exact ⟨_, .reserve ran⟩
  | recycle ran => exact ⟨_, .recycle ran⟩
  | lookup pa => exact ⟨_, .lookup pa⟩
  | markUsed id => exact ⟨_, .markUsed id⟩
  | acquire id => exact ⟨_, .acquire id⟩
  | release id => exact ⟨_, .release id⟩

theorem Reached.indexed (reached : Reached start session) (indexed : start.engine.cache.Indexed) :
    session.engine.cache.Indexed ∧ session.engine.ram.base = start.engine.ram.base ∧
      session.engine.ram.size = start.engine.ram.size := by
  induction reached with
  | refl => exact ⟨indexed, rfl, rfl⟩
  | step _ step ih =>
    obtain ⟨before, base, size⟩ := ih
    obtain ⟨deed, does⟩ := step.does
    exact ⟨does.effect.indexed before, does.memory.1.trans base, does.memory.2.trans size⟩

-- Where memory starts with a page, no byte of an installed block is left in the range. Elsewhere that is so up to the page
-- that memory ends in, where the upper half of a crossing instruction can stand.
theorem store_sweeps {config : Config} {ram : Ram} {engine after : Engine} {pa : Nat} {data : List UInt8}
    {fetch : Option Nat} {effect : StoreEffect} {host : Host} (built : Engine.setup config ram host = .ok (.ok engine))
    (reached : Reached ⟨engine, [], []⟩ session) (filled : data ≠ [])
    (ran : Engine.store pa data fetch session.engine = .ok (.ok effect) after) :
    Engine.Swept ram pa data.length session.engine after := by
  obtain ⟨new, memory⟩ := Engine.setup_sound built
  have fresh : Sound ⟨engine, [], []⟩ := ⟨new, nofun, nofun⟩
  obtain ⟨indexed, base, size⟩ := reached.indexed (Engine.setup_indexed built)
  have ends : session.engine.ram.EndsIn = ram.EndsIn := by
    funext f
    unfold Ram.EndsIn
    rw [base, size, memory]
  have swept := Engine.store_swept (reached_sound fresh reached).1.engine indexed filled ran
  exact ⟨ends ▸ swept.left, ends ▸ swept.outside, ends ▸ swept.tracked⟩

-- Memory from the middle of one page to the middle of the next, with an instruction across the two.
def halfPages : Ram :=
  ⟨0x1800, ((List.replicate 0x7fe 0 : List UInt8) ++ [0x93, 0x82, 0x12, 0x00] ++ List.replicate 0x7fe 0).toArray,
    by decide +kernel⟩

theorem halfPages_spared : ∃ engine, Engine.setup {} halfPages = .ok (.ok engine) ∧
    ∃ block middle, Engine.phases ⟨0x1ffe, 0x1ffe, some 0x2000⟩ engine = .ok (.ok block) middle ∧
    ∃ effect after, Engine.store 0x2000 [0x22, 0x00] none middle = .ok (.ok effect) after ∧
      block ∈ after.cache.installed ∧ 2 < block.guestLen ∧ block.source? 2 = some 0x2000 := by
  decide +kernel

theorem halfPages_block_stays : ∃ engine session effect after block, Engine.setup {} halfPages = .ok (.ok engine) ∧
    Reached ⟨engine, [], []⟩ session ∧
    Engine.store 0x2000 [0x22, 0x00] none session.engine = .ok (.ok effect) after ∧ block ∈ after.cache.installed ∧
    ∃ o < block.guestLen, ∃ addr, block.source? o = some addr ∧ 0x2000 ≤ addr ∧ addr < 0x2000 + 2 := by
  obtain ⟨engine, built, block, middle, ran, effect, after, wrote, member, long, source⟩ := halfPages_spared
  obtain ⟨session, reached, rfl⟩ := phases_reached [] [] (fun _ named => by cases named; rfl) ran
  exact ⟨engine, session, effect, after, block, built, reached, wrote, member, 2, long, _, source, by decide, by decide⟩

theorem halfPages_store_sweeps : ∃ engine session effect after, Engine.setup {} halfPages = .ok (.ok engine) ∧
    Reached ⟨engine, [], []⟩ session ∧
    Engine.store 0x2000 [0x22, 0x00] none session.engine = .ok (.ok effect) after ∧ after.cache.installed ≠ [] ∧
    Engine.Swept halfPages 0x2000 2 session.engine after := by
  obtain ⟨engine, built, block, middle, ran, effect, after, wrote, member, -⟩ := halfPages_spared
  obtain ⟨session, reached, rfl⟩ := phases_reached [] [] (fun _ named => by cases named; rfl) ran
  exact ⟨engine, session, effect, after, built, reached, wrote, List.ne_nil_of_mem member,
    store_sweeps built reached (List.cons_ne_nil _ _) wrote⟩

end Session
end TieredHart
