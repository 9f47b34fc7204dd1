import TieredHart.Proofs.Courses
import TieredHart.Proofs.Dispatch

namespace TieredHart

structure Owner where
  given : Nat
  owned : Nat → Option Block

namespace Owner

def Numbered (owner : Owner) : Prop := ∀ id block, owner.owned id = some block → block.id = id ∧ id < owner.given

-- Time passes: blocks come in under new numbers, are marked invalid and go away. None comes back, gets another address
-- or turns valid again.
structure Ages (owner later : Owner) : Prop where
  given : owner.given ≤ later.given
  numbered : later.Numbered
  same : ∀ id block, id < owner.given → later.owned id = some block →
    ∃ old, owner.owned id = some old ∧ block.entryPa = old.entryPa ∧ (block.valid = true → old.valid = true)

end Owner

namespace Shortcuts

inductive Use where
  | insert (block : Block)
  | lookup (pa : Nat)
  | purge

def use (table : Shortcuts) (owner : Owner) : Use → Shortcuts
  | .insert block => table.insert block
  | .lookup pa => (table.lookup owner.owned pa).2
  | .purge => table.purge owner.owned

def ofPast : List (Owner × Use) → Shortcuts
  | [] => .empty
  | (owner, use) :: past => (ofPast past).use owner use

def Use.into (i : Nat) : Use → Option Block
  | .insert block => if index block.entryPa = i then some block else none
  | .lookup _ | .purge => none

def lastInto (i : Nat) (past : List (Owner × Use)) : Option Block := past.findSome? fun moment => moment.2.into i

end Shortcuts

open Shortcuts (Use lastInto ofPast)

-- Uses of a table, with whoever owned the blocks at each of them. Only a block that somebody owns can be inserted.
inductive Owner.Past : List (Owner × Use) → Owner → Prop where
  | start {owner : Owner} (numbered : owner.Numbered) : Past [] owner
  | ages {past : List (Owner × Use)} {owner later : Owner} (before : Past past owner) (ages : owner.Ages later) :
      Past past later
  | use {past : List (Owner × Use)} {owner : Owner} (use : Use) (before : Past past owner)
      (held : ∀ block, use = .insert block → owner.owned block.id = some block) : Past ((owner, use) :: past) owner

namespace Owner.Past

variable {past later : List (Owner × Use)} {owner now : Owner}

theorem numbered (lived : Past past owner) : owner.Numbered := by
  induction lived with
  | start numbered => exact numbered
  | ages _ ages _ => exact ages.numbered
  | use _ _ _ ih => exact ih

theorem unpurged (lived : Past (later ++ (now, .purge) :: past) owner) : Past (later ++ past) owner := by
  generalize whole : later ++ (now, Use.purge) :: past = all at lived
  induction lived generalizing later with
  | start numbered => simp at whole
  | ages _ ages ih => exact .ages (ih whole) ages
  | use use before held ih =>
    cases later with
    | nil =>
      cases whole
      exact before
    | cons moment rest =>
      cases whole
      exact .use use (ih rfl) held

end Owner.Past

namespace Shortcuts

variable {table : Shortcuts} {owner later : Owner} {past : List (Owner × Use)} {pa : Nat} {block : Block}

theorem slot_some {i id : Nat} (keys : (table.slots.map (·.1)).Nodup) : table.slot? i = some id ↔ (i, id) ∈ table.slots :=
  Lru.tick_some keys

-- What a table knows: each slot has the last block that went into it, unless that one is dead.
structure Hints (owner : Owner) (past : List (Owner × Use)) (table : Shortcuts) : Prop where
  keys : (table.slots.map (·.1)).Nodup
  named : ∀ i id, (i, id) ∈ table.slots → ∃ block, lastInto i past = some block ∧ block.id = id
  kept : ∀ i block, lastInto i past = some block → live owner.owned block.id = true → (i, block.id) ∈ table.slots
  given : ∀ i block, lastInto i past = some block → block.id < owner.given

namespace Hints

theorem ages (hints : Hints owner past table) (ages : owner.Ages later) : Hints later past table := by
  refine ⟨hints.keys, hints.named, ?_, ?_⟩
  · intro i block last alive
    apply hints.kept i block last
    unfold live at alive ⊢
    cases known : later.owned block.id with
    | none => simp [known] at alive
    | some now =>
      obtain ⟨old, owned, -, valid⟩ := ages.same block.id now (hints.given i block last) known
      simp only [known] at alive
      simpa only [owned] using valid alive
  · intro i block last
    exact Nat.lt_of_lt_of_le (hints.given i block last) ages.given

theorem pruned {kept : Nat × Nat → Bool} {use : Use} (hints : Hints owner past table) (unaimed : ∀ i, use.into i = none)
    (spared : ∀ slot ∈ table.slots, live owner.owned slot.2 = true → kept slot = true) :
    Hints owner ((owner, use) :: past) ⟨table.slots.filter kept⟩ := by
  have last : ∀ i, lastInto i ((owner, use) :: past) = lastInto i past := by
    intro i
    simp [lastInto, unaimed]
  refine ⟨hints.keys.sublist (List.filter_sublist.map _), ?_, ?_, ?_⟩
  · intro i id member
    rw [last]
    exact hints.named i id (List.mem_filter.mp member).1
  · intro i block there alive
    rw [last] at there
    have member := hints.kept i block there alive
    exact List.mem_filter.mpr ⟨member, spared _ member alive⟩
  · intro i block there
    rw [last] at there
    exact hints.given i block there

theorem inserted (hints : Hints owner past table) (numbered : owner.Numbered) (held : owner.owned block.id = some block) :
    Hints owner ((owner, .insert block) :: past) (table.insert block) := by
  have last : ∀ i, lastInto i ((owner, .insert block) :: past) =
      if index block.entryPa = i then some block else lastInto i past := by
    intro i
    by_cases here : index block.entryPa = i <;> simp [lastInto, Use.into, here]
  have others : ∀ slot, slot ∈ (table.clear (index block.entryPa)).slots ↔
      slot ∈ table.slots ∧ slot.1 ≠ index block.entryPa := by
    intro slot
    simp [clear]
  refine ⟨?_, ?_, ?_, ?_⟩
  · refine List.nodup_cons.mpr ⟨?_, hints.keys.sublist (List.filter_sublist.map _)⟩
    intro there
    obtain ⟨slot, member, same⟩ := List.mem_map.mp there
    exact ((others slot).mp member).2 same
  · intro i id member
    rw [last]
    rcases List.mem_cons.mp member with new | old
    · cases new
      exact ⟨block, if_pos rfl, rfl⟩
    · obtain ⟨member, apart⟩ := (others _).mp old
      rw [if_neg (Ne.symm apart)]
      exact hints.named i id member
  · intro i other there alive
    rw [last] at there
    by_cases here : index block.entryPa = i
    · rw [if_pos here] at there
      cases there
      rw [← here]
      exact List.mem_cons_self ..
    · rw [if_neg here] at there
      exact List.mem_cons_of_mem _ ((others _).mpr ⟨hints.kept i other there alive, Ne.symm here⟩)
  · intro i other there
    rw [last] at there
    split at there
    · cases there
      exact (numbered _ _ held).2
    · exact hints.given i other there

end Hints

theorem lookup_prunes (keys : (table.slots.map (·.1)).Nodup) (owned : Nat → Option Block) (pa : Nat) :
    ∃ kept : Nat × Nat → Bool, (table.lookup owned pa).2 = ⟨table.slots.filter kept⟩ ∧
      ∀ slot ∈ table.slots, live owned slot.2 = true → kept slot = true := by
  have all : table = ⟨table.slots.filter fun _ => true⟩ := congrArg mk (List.filter_eq_self.mpr fun _ _ => rfl).symm
  unfold lookup
  cases found : table.slot? (index pa) with
  | none => exact ⟨fun _ => true, all, fun _ _ _ => rfl⟩
  | some id =>
    have cleared : live owned id = false → ∀ slot ∈ table.slots, live owned slot.2 = true →
        decide (slot.1 ≠ index pa) = true := by
      intro dead slot member alive
      apply decide_eq_true
      intro here
      have same : table.slot? (index pa) = some slot.2 := (slot_some keys).mpr (by rw [← here]; exact member)
      rw [found] at same
      cases same
      rw [dead] at alive
      cases alive
    dsimp only
    cases known : owned id with
    | none => exact ⟨_, rfl, cleared (by simp [live, known])⟩
    | some block =>
      by_cases valid : block.valid = true
      · simp only [if_pos valid]
        exact ⟨fun _ => true, all, fun _ _ _ => rfl⟩
      · simp only [if_neg valid]
        exact ⟨_, rfl, cleared (by simpa [live, known] using valid)⟩

theorem Hints.ofPast (lived : Owner.Past past owner) : Hints owner past (ofPast past) := by
  induction lived with
  | start numbered => exact ⟨List.nodup_nil, by simp [Shortcuts.ofPast, empty], by simp [lastInto], by simp [lastInto]⟩
  | ages _ ages ih => exact ih.ages ages
  | use use before held ih =>
    cases use with
    | insert block => exact ih.inserted before.numbered (held block rfl)
    | lookup pa =>
      obtain ⟨kept, pruned, spared⟩ := lookup_prunes ih.keys _ pa
      show Hints _ _ (Shortcuts.lookup _ _ pa).2
      rw [pruned]
      exact ih.pruned (fun _ => rfl) spared
    | purge => exact ih.pruned (fun _ => rfl) fun _ _ alive => alive

theorem lookup_last (lived : Owner.Past past owner) : ((ofPast past).lookup owner.owned pa).1 = some block ↔
    ∃ last, lastInto (index pa) past = some last ∧ last.id = block.id ∧ owner.owned block.id = some block ∧
      block.valid = true ∧ block.entryPa = pa := by
  have hints := Hints.ofPast lived
  rw [lookup_some]
  constructor
  · rintro ⟨id, slot, owned, valid, here⟩
    obtain ⟨last, known, same⟩ := hints.named _ id ((slot_some hints.keys).mp slot)
    obtain ⟨own, -⟩ := lived.numbered id block owned
    exact ⟨last, known, same.trans own.symm, own ▸ owned, valid, here⟩
  · rintro ⟨last, known, same, owned, valid, here⟩
    refine ⟨block.id, (slot_some hints.keys).mpr ?_, owned, valid, here⟩
    rw [← same]
    exact hints.kept _ last known (by simpa [live, same, owned] using valid)

theorem purge_unseen {now : Owner} {later : List (Owner × Use)} (lived : Owner.Past (later ++ (now, .purge) :: past) owner)
    (pa : Nat) : ((ofPast (later ++ (now, .purge) :: past)).lookup owner.owned pa).1 =
      ((ofPast (later ++ past)).lookup owner.owned pa).1 := by
  apply Option.ext
  intro block
  have last : lastInto (index pa) (later ++ (now, .purge) :: past) = lastInto (index pa) (later ++ past) := by
    simp [lastInto, Use.into]
  rw [lookup_last lived, lookup_last lived.unpurged, last]

end Shortcuts

namespace Cache

variable {cache middle after : Cache} {pa id : Nat} {block : Block}

def owner (cache : Cache) : Owner := ⟨cache.nextId, cache.block?⟩

structure Outlived (cache after : Cache) : Prop where
  nextId : cache.nextId ≤ after.nextId
  blocks : ∀ block ∈ after.installed ++ after.retired, block.id < cache.nextId →
    ∃ old ∈ cache.installed ++ cache.retired, block.id = old.id ∧ block.entryPa = old.entryPa ∧
      (block.valid = true → old.valid = true)

namespace Outlived

theorem subset (nextId : after.nextId = cache.nextId)
    (fewer : ∀ block ∈ after.installed ++ after.retired, block ∈ cache.installed ++ cache.retired) : Outlived cache after :=
  ⟨Nat.le_of_eq nextId.symm, fun block there _ => ⟨block, fewer block there, rfl, rfl, id⟩⟩

theorem refl (cache : Cache) : Outlived cache cache := .subset rfl fun _ => id

theorem trans (first : Outlived cache middle) (second : Outlived middle after) : Outlived cache after := by
  refine ⟨Nat.le_trans first.nextId second.nextId, ?_⟩
  intro block there below
  obtain ⟨between, here, id, entry, valid⟩ := second.blocks block there (Nat.lt_of_lt_of_le below first.nextId)
  obtain ⟨old, before, id', entry', valid'⟩ := first.blocks between here (id ▸ below)
  exact ⟨old, before, id.trans id', entry.trans entry', fun still => valid' (valid still)⟩

end Outlived

theorem Undisturbed.outlived (same : Undisturbed cache after) : Outlived cache after := by
  apply Outlived.subset same.nextId
  simp [same.installed, same.retired]

theorem Removed.outlived {why : Departure} (removed : Removed pa why block cache after) : Outlived cache after := by
  refine ⟨Nat.le_of_eq removed.nextId.symm, ?_⟩
  rw [removed.installed, removed.retired]
  intro other there _
  rcases List.mem_append.mp there with stayed | gone
  · exact ⟨other, List.mem_append_left _ (List.mem_filter.mp stayed).1, rfl, rfl, id⟩
  · rcases List.mem_append.mp gone with older | new
    · exact ⟨other, List.mem_append_right _ older, rfl, rfl, id⟩
    · cases List.mem_singleton.mp new
      exact ⟨block, List.mem_append_left _ (find_some removed.found).1, rfl, rfl, nofun⟩

theorem dropFrame_outlived (cache : Cache) (f : Nat) : Outlived cache (cache.dropFrame f).2 := by
  have cleared : Outlived cache { cache with frames := cache.frames.clearEntries f } := .subset rfl fun _ => id
  have all := removeAll_keeps (P := Outlived cache) cleared (fun before removed => before.trans removed.outlived)
    (cache.frames.entries f)
  unfold dropFrame
  dsimp only
  split
  · exact all.trans (Undisturbed.reported ..).outlived
  · exact all

theorem framesWritten_outlived (cache : Cache) (fetch : Option Nat) (fs : List Nat) :
    Outlived cache (cache.framesWritten fetch fs).2 := by
  induction fs generalizing cache with
  | nil => exact .refl cache
  | cons f rest ih =>
    have written : Outlived (cache.dropFrame f).2 (cache.frameWritten fetch f).2 := .subset rfl fun _ => id
    exact ((dropFrame_outlived cache f).trans written).trans (ih _)

theorem recycle_outlived {count : Nat} (ran : recycle cache = .ok count after) : Outlived cache after := by
  obtain ⟨kept, pool, recycled, rfl⟩ := recycle_parts ran
  refine .subset ?_ ?_
  · rfl
  intro block there
  rcases List.mem_append.mp there with installed | retired
  · exact List.mem_append_left _ installed
  · rw [recycleFrom_kept recycled] at retired
    exact List.mem_append_right _ (List.mem_filter.mp retired).1

theorem markUsed_outlived (cache : Cache) (id : Nat) : Outlived cache (cache.markUsed id) := by
  have used : ∀ {blocks : List Block} {block : Block}, block ∈ useAt (cache.clock + 1) id blocks →
      ∃ old ∈ blocks, block.id = old.id ∧ block.entryPa = old.entryPa ∧ (block.valid = true → old.valid = true) := by
    intro blocks block there
    obtain ⟨old, here, rfl⟩ := List.mem_map.mp there
    refine ⟨old, here, ?_⟩
    split <;> exact ⟨rfl, rfl, fun valid => valid⟩
  refine ⟨Nat.le_refl _, ?_⟩
  intro block there _
  rcases List.mem_append.mp there with installed | retired
  · obtain ⟨old, here, same⟩ := used installed
    exact ⟨old, List.mem_append_left _ here, same⟩
  · obtain ⟨old, here, same⟩ := used retired
    exact ⟨old, List.mem_append_right _ here, same⟩

theorem Cleared.outlived (cleared : Cleared cache after) : Outlived cache after := by
  induction cleared with
  | start => exact .refl cache
  | recycled _ ran ih => exact ih.trans (recycle_outlived ran)
  | evicted _ _ ih =>
    rename_i middle pa _ _
    have searched : Outlived middle (victim middle).2 := .subset rfl fun _ => id
    refine ih.trans (searched.trans ?_)
    cases left : (victim middle).2.remove pa .evicted with
    | none => exact .refl _
    | some after =>
      obtain ⟨block, removed⟩ := remove_removed left
      exact removed.outlived
  | exhausted _ _ ih => exact ih.trans (.subset rfl fun _ => id)

theorem Granted.outlived {size : Nat} {answer : Except Refusal Extent} (granted : Granted cache size answer after) :
    Outlived cache after := by
  cases granted with
  | given cleared _ => exact cleared.outlived.trans (.subset rfl fun _ => id)
  | refused cleared => exact cleared.outlived

theorem Entered.outlived {code : HostCode} {host : Extent} (entered : Entered code host cache block after) :
    Outlived cache after := by
  cases entered.after
  refine ⟨Nat.le_succ _, ?_⟩
  intro other there below
  rcases List.mem_cons.mp there with new | old
  · cases new
    exact absurd below (Nat.lt_irrefl _)
  · exact ⟨other, old, rfl, rfl, id⟩

theorem Seated.outlived {code : HostCode} {data : List UInt8} {host : Extent}
    (seated : Seated code data host cache block after) : Outlived cache after := by
  obtain ⟨-, -, entered⟩ := seated
  have placed : ∀ arena, Outlived cache { cache with arena := arena } := fun _ => .subset rfl fun _ => id
  exact (placed _).trans entered.outlived

theorem Effect.outlived {deed : Deed} (effect : cache.Effect deed after) : Outlived cache after := by
  cases effect with
  | undisturbed same => exact same.outlived
  | used id => exact markUsed_outlived cache id
  | dropped f => exact dropFrame_outlived cache f
  | recycled ran => exact recycle_outlived ran
  | published published =>
    cases published with
    | stale => exact .refl _
    | occupied => exact .refl _
    | refused _ _ cleared => exact cleared.outlived
    | seated _ _ given seated => exact given.outlived.trans seated.outlived
  | filled filled =>
    cases filled with
    | refused cleared => exact cleared.outlived
    | seated _ given seated => exact given.outlived.trans seated.outlived
  | reserved granted => exact granted.outlived
  | placed => exact .subset rfl fun _ => id
  | seated entered => exact entered.outlived
  | stored same => exact (framesWritten_outlived ..).trans same.outlived

theorem find_number {blocks : List Block} (numbers : (blocks.map (·.id)).Nodup) :
    blocks.find? (·.id = id) = some block ↔ block ∈ blocks ∧ block.id = id := by
  induction blocks with
  | nil => simp
  | cons other rest ih =>
    obtain ⟨fresh, numbers⟩ := List.nodup_cons.mp numbers
    by_cases here : other.id = id
    · rw [List.find?_cons_of_pos (by simpa using here)]
      constructor
      · rintro ⟨⟩
        exact ⟨List.mem_cons_self .., here⟩
      · rintro ⟨member, same⟩
        rcases List.mem_cons.mp member with rfl | later
        · rfl
        · exact absurd (List.mem_map.mpr ⟨block, later, same.trans here.symm⟩) fresh
    · rw [List.find?_cons_of_neg (by simpa using here), ih numbers]
      constructor
      · rintro ⟨member, same⟩
        exact ⟨List.mem_cons_of_mem _ member, same⟩
      · rintro ⟨member, same⟩
        rcases List.mem_cons.mp member with rfl | later
        · exact absurd same here
        · exact ⟨later, same⟩

theorem block_some (indexed : cache.Indexed) : cache.block? id = some block ↔
    block ∈ cache.installed ++ cache.retired ∧ block.id = id := find_number indexed.numbers

theorem lookup_owned (indexed : cache.Indexed) (found : (cache.lookup pa).1 = some block) :
    cache.block? block.id = some block := by
  have known : cache.find? pa = some block := by
    unfold lookup at found
    cases there : cache.find? pa with
    | none => simp [there] at found
    | some other => simpa [there] using found
  exact (block_some indexed).mpr ⟨List.mem_append_left _ (find_some known).1, rfl⟩

theorem owner_numbered (indexed : cache.Indexed) : cache.owner.Numbered := by
  intro id block owned
  obtain ⟨member, rfl⟩ := (block_some indexed).mp owned
  exact ⟨rfl, indexed.numbered block member⟩

theorem Outlived.ages (outlived : Outlived cache after) (before : cache.Indexed) (indexed : after.Indexed) :
    cache.owner.Ages after.owner := by
  refine ⟨outlived.nextId, owner_numbered indexed, ?_⟩
  intro id block below owned
  obtain ⟨member, rfl⟩ := (block_some indexed).mp owned
  obtain ⟨old, there, same, entry, valid⟩ := outlived.blocks block member below
  exact ⟨old, (block_some before).mpr ⟨there, same.symm⟩, entry, valid⟩

end Cache

def Cache.usableAt (cache : Cache) (space : AddressSpace) (pc : Word) (pa : Nat) : Except Failure (Option Block) :=
  match cache.find? pa with
  | none => .ok none
  | some block =>
    let first := block.stamp.first
    if ¬ block.valid then .ok none
    else if cache.frames.version first.frame ≠ first.version then
      .error (.violated (.staleBlock pa first.version first.frame (cache.frames.version first.frame)))
    else .ok (if Engine.secondUsable cache.frames space pc block.stamp.second then some block else none)

def outcome {ε σ α : Type} : EStateM.Result ε σ α → Except ε α
  | .ok a _ => .ok a
  | .error e _ => .error e

namespace Engine

variable {start engine after : Engine} {past : List (Owner × Use)} {space : AddressSpace} {pc : Word} {pa : Nat}

theorem Course.outlived (course : engine.Course after) : engine.cache.Outlived after.cache := by
  induction course with
  | start => exact .refl _
  | does _ does ih => exact ih.trans does.effect.outlived
  | upkeep _ same ih => exact ih.trans same.cache.outlived

-- An engine at work and a table of shortcuts to its blocks, with what was done to the table, the last use first. Any block
-- that exists may go into the table, in particular one that the map has answered with.
inductive Guided (start : Engine) : List (Owner × Use) → Engine → Prop where
  | start : Guided start [] start
  | course {past : List (Owner × Use)} {engine after : Engine} (before : Guided start past engine)
      (course : engine.Course after) : Guided start past after
  | use {past : List (Owner × Use)} {engine : Engine} (use : Use) (before : Guided start past engine)
      (held : ∀ block, use = .insert block → engine.cache.block? block.id = some block) :
      Guided start ((engine.cache.owner, use) :: past) engine

theorem Guided.owned (guided : start.Guided past engine) (indexed : start.cache.Indexed) :
    engine.cache.Indexed ∧ Owner.Past past engine.cache.owner := by
  induction guided with
  | start => exact ⟨indexed, .start (Cache.owner_numbered indexed)⟩
  | course _ course ih =>
    obtain ⟨before, past⟩ := ih
    have indexed := course.indexed before
    exact ⟨indexed, .ages past (course.outlived.ages before indexed)⟩
  | use use _ held ih => exact ⟨ih.1, .use use ih.2 held⟩

theorem usableBlock_outcome (indexed : engine.cache.Indexed) :
    outcome (usableBlock space pc pa engine) = engine.cache.usableAt space pc pa := by
  obtain ⟨_, after, ran, rfl, frames⟩ := (lookupBlock_find indexed.keys indexed.invalid pa).answers
  unfold usableBlock Cache.usableAt
  rw [EStateM.bind_ok ran]
  cases engine.cache.find? pa with
  | none => rfl
  | some block =>
    have here : (get : EngineM Engine) after = .ok after after := rfl
    dsimp only
    rw [EStateM.bind_ok here, frames]
    by_cases valid : block.valid = true
    · rw [if_neg (not_not_intro valid), if_neg (not_not_intro valid)]
      split
      · rfl
      · rfl
    · rw [if_pos valid, if_pos valid]
      rfl

-- A table of shortcuts never shows. Whatever it has in its slots, it leads to the block of the map or nowhere, and which
-- block is run does not depend on it. Whoever owns the blocks, the cache for one, a look-up finds the last block that went
-- into the slot if it is still owned, valid and entered at that address, and purges leave no trace.
theorem shortcuts_transparent {config : Config} {ram : Ram} {host : Host} (built : setup config ram host = .ok (.ok start))
    (guided : start.Guided past engine) :
    (∀ (table : Shortcuts) pa block, (table.lookup engine.cache.block? pa).1 = some block →
      engine.cache.find? pa = some block) ∧
    (∀ table space pc pa, outcome (usableBlock space pc pa { engine with shortcuts := table }) =
      outcome (usableBlock space pc pa { engine with shortcuts := .empty })) ∧
    Owner.Past past engine.cache.owner ∧
    ∀ past owner, Owner.Past past owner →
      (∀ pa block, ((ofPast past).lookup owner.owned pa).1 = some block ↔
        ∃ last, lastInto (Shortcuts.index pa) past = some last ∧ last.id = block.id ∧ owner.owned block.id = some block ∧
          block.valid = true ∧ block.entryPa = pa) ∧
      ∀ later now before, past = later ++ (now, .purge) :: before → ∀ pa,
        ((ofPast past).lookup owner.owned pa).1 = ((ofPast (later ++ before)).lookup owner.owned pa).1 := by
  obtain ⟨indexed, owned⟩ := guided.owned (setup_indexed built)
  refine ⟨?_, ?_, owned, ?_⟩
  · intro table pa block found
    obtain ⟨id, -, known, valid, rfl⟩ := Shortcuts.lookup_some.mp found
    exact Cache.block_find indexed.keys indexed.invalid known valid
  · intro table space pc pa
    have mapped : ∀ table, outcome (usableBlock space pc pa { engine with shortcuts := table }) =
        engine.cache.usableAt space pc pa := fun _ => usableBlock_outcome indexed
    rw [mapped, mapped]
  · intro past owner lived
    refine ⟨fun pa block => Shortcuts.lookup_last lived, ?_⟩
    rintro later now before rfl pa
    exact Shortcuts.purge_unseen lived pa

theorem pageEndLoop_transparent : ∃ start past engine second, setup {} Session.pageEndLoop = .ok (.ok start) ∧
    start.Guided past engine ∧ past.length = 4 ∧ engine.cache.retired.length = 1 ∧
    lastInto (Shortcuts.index 8188) past = some second ∧
    ((ofPast past).lookup engine.cache.block? 8188).1 = some second ∧ engine.cache.find? 8188 = some second := by
  have computed : ∃ start, setup {} Session.pageEndLoop = .ok (.ok start) ∧
      ∃ first one, fulfil ⟨8188, 0, none⟩ start = .ok (.ok first) one ∧ (one.cache.lookup 8188).1 = some first ∧
      ∃ effect two, store 8188 [0x7d] none { one with cache := one.cache.acquire first.id } = .ok (.ok effect) two ∧
      ∃ second engine, fulfil ⟨8188, 0, none⟩ two = .ok (.ok second) engine ∧
        (engine.cache.lookup 8188).1 = some second ∧ engine.cache.retired.length = 1 ∧ second.entryPa = 8188 ∧
        second.valid = true := by
    decide +kernel
  obtain ⟨start, built, first, one, compiled, found, effect, two, wrote, second, engine, again, found', retired, entry,
    valid⟩ := computed
  have held : start.Guided [] one := .course .start ((fulfil_along _ _).answer compiled)
  have inserted : start.Guided _ one := .use (.insert first) held fun block same => by
    cases same
    exact Cache.lookup_owned (held.owned (setup_indexed built)).1 found
  have written : start.Guided _ two := .course inserted (.does (.does .start (.acquire first.id)) (.store wrote))
  have looked : start.Guided _ two := .use (.lookup 8188) written nofun
  have compiled' : start.Guided _ engine := .course looked ((fulfil_along _ _).answer again)
  have owned := Cache.lookup_owned (compiled'.owned (setup_indexed built)).1 found'
  have inserted' : start.Guided _ engine := .use (.insert second) compiled' fun block same => by
    cases same
    exact owned
  have guided : start.Guided _ engine := .use .purge inserted' nofun
  obtain ⟨mapped, -, past, general⟩ := shortcuts_transparent built guided
  have last : ∀ owner before, lastInto (Shortcuts.index 8188) ((owner, .purge) :: (owner, .insert second) :: before) =
      some second := by
    intro owner before
    simp [lastInto, Use.into, entry]
  have hit := ((general _ _ past).1 8188 second).mpr ⟨second, last _ _, rfl, owned, valid, entry⟩
  exact ⟨start, _, engine, second, built, guided, rfl, retired, last _ _, hit, mapped _ _ _ hit⟩

end Engine
end TieredHart
