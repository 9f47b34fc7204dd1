import TieredHart.Proofs.Chronicle
import TieredHart.Proofs.Histories

namespace TieredHart

namespace Occurrence

def misses (pa : Nat) : List Occurrence → Nat
  | [] => 0
  | .entered other .missed _ :: older => misses pa older + if other = pa then 1 else 0
  | .entered .. :: older => misses pa older
  | .wrote other len :: older => if Page.frame pa ∈ Engine.framesOf other len then 0 else misses pa older
  | .drained :: older => misses pa older

def queued : List Occurrence → List Nat
  | [] => []
  | .entered pa _ true :: older => queued older ++ [pa]
  | .entered _ _ false :: older => queued older
  | .wrote .. :: older => queued older
  | .drained :: _ => []

def Even (record : List Occurrence) : Prop := ∀ pa manner queued, .entered pa manner queued ∈ record → pa % 2 = 0

theorem even_nil : Even [] := fun _ _ _ absent => absurd absent List.not_mem_nil

theorem even_append {newer older : List Occurrence} : Even (newer ++ older) ↔ Even newer ∧ Even older := by
  constructor
  · intro both
    exact ⟨fun pa manner asked member => both pa manner asked (List.mem_append_left _ member),
      fun pa manner asked member => both pa manner asked (List.mem_append_right _ member)⟩
  · rintro ⟨later, earlier⟩ pa manner asked member
    rcases List.mem_append.mp member with member | member
    · exact later pa manner asked member
    · exact earlier pa manner asked member

theorem even_stores (writes : List (Nat × Nat)) : Even (LoopM.stores writes) := by
  intro pa manner asked member
  unfold LoopM.stores at member
  simp at member

end Occurrence

open Occurrence (misses queued Even)

namespace Watch

variable {watch now : Watch} {record : List Occurrence} {pa : Nat}

theorem Path.tracked (path : watch.Path record now) : now.tracked = watch.tracked ∧ now.threshold = watch.threshold := by
  induction path with
  | start => exact ⟨rfl, rfl⟩
  | @step _ now occurrence _ _ ih =>
    cases occurrence with
    | entered pa manner asked => cases manner <;> exact ih
    | wrote pa len => exact ih
    | drained => exact ih

-- The heat of an even address, by induction on what happened. A frame that is not tracked stays cold.
theorem Path.heat_misses (path : watch.Path record now) (cold : watch.heat pa = 0) (even : pa % 2 = 0)
    (evens : Even record) : now.heat pa =
      if watch.tracked (Page.frame pa) = true then min FrameTable.heatLimit (misses pa record) else 0 := by
  induction path with
  | start => simp [cold, misses]
  | @step record now occurrence path _ ih =>
    have ih := ih fun other manner asked member => evens other manner asked (List.mem_cons_of_mem _ member)
    cases occurrence with
    | entered other manner asked =>
      cases manner with
      | forced => exact ih
      | compiled => exact ih
      | missed =>
        have even' := evens other .missed asked (List.mem_cons_self ..)
        show (if pa / 2 = other / 2 ∧ now.tracked (Page.frame other) = true then
          min (now.heat pa + 1) FrameTable.heatLimit else now.heat pa) = if watch.tracked (Page.frame pa) = true then
          min FrameTable.heatLimit (misses pa record + if other = pa then 1 else 0) else 0
        rw [path.tracked.1, ih]
        by_cases here : other = pa
        · subst here
          by_cases tracked : watch.tracked (Page.frame other) = true
          · rw [if_pos ⟨rfl, tracked⟩, if_pos tracked, if_pos tracked, if_pos rfl]
            omega
          · rw [if_neg (fun both => tracked both.2), if_neg tracked, if_neg tracked]
        · rw [if_neg (fun both => here (by omega)), if_neg here]
          rfl
    | wrote other len =>
      show (if Page.frame pa ∈ _ then 0 else now.heat pa) = if _ then min _ (if Page.frame pa ∈ _ then 0 else _) else 0
      split
      · rw [Nat.min_zero, ite_self]
      · exact ih
    | drained => exact ih

theorem Path.waiting_queued (path : watch.Path record now) (idle : watch.waiting = []) : now.waiting = queued record := by
  induction path with
  | start => exact idle
  | @step record now occurrence _ admits ih =>
    cases occurrence with
    | entered pa manner asked =>
      cases asked with
      | false =>
        cases manner with
        | forced => exact ih
        | compiled => exact ih
        | missed => exact (List.append_nil _).trans ih
      | true =>
        obtain ⟨rfl, -⟩ := admits.2 rfl
        exact congrArg (· ++ [pa]) ih
    | wrote pa len => exact ih
    | drained => rfl

theorem Path.admitted {newer older : List Occurrence} {occurrence : Occurrence}
    (path : watch.Path (newer ++ occurrence :: older) now) :
    ∃ moment, watch.Path older moment ∧ moment.Admits occurrence := by
  induction newer generalizing now with
  | nil =>
    cases path with
    | step before admits => exact ⟨_, before, admits⟩
  | cons _ _ ih =>
    cases path with
    | step before _ => exact ih before

theorem Path.queued_hot {newer older : List Occurrence} {manner : Manner}
    (path : watch.Path (newer ++ .entered pa manner true :: older) now) (cold : watch.heat pa = 0)
    (positive : 0 < watch.threshold) (evens : Even (newer ++ .entered pa manner true :: older)) :
    manner = .missed ∧ watch.threshold ≤ misses pa (.entered pa manner true :: older) := by
  obtain ⟨moment, before, admits⟩ := path.admitted
  obtain ⟨missed, hot⟩ := admits.2 rfl
  have evens' := (Occurrence.even_append.mp evens).2
  have heat := (before.step admits).heat_misses cold (evens' pa manner true (List.mem_cons_self ..)) evens'
  rw [before.tracked.2, heat] at hot
  split at hot
  · exact ⟨missed, Nat.le_trans hot (Nat.min_le_right ..)⟩
  · omega

end Watch

namespace Engine

variable {engine after : Engine}

def usable? (engine : Engine) (space : AddressSpace) (pc : Word) (pa : Nat) : Option Block :=
  (engine.cache.find? pa).filter fun block =>
    block.valid && secondUsable engine.cache.frames space pc block.stamp.second

def manner (engine : Engine) (space : AddressSpace) (pc : Word) (pa : Nat) : Manner :=
  if engine.cache.frames.state (Page.frame pa) = .smcDetected then .forced
  else if (engine.usable? space pc pa).isSome then .compiled
  else .missed

theorem manner_cache (same : after.cache = engine.cache) (space : AddressSpace) (pc : Word) (pa : Nat) :
    after.manner space pc pa = engine.manner space pc pa := by
  unfold manner usable?
  rw [same]

theorem usable_undisturbed (same : engine.cache.Undisturbed after.cache) (space : AddressSpace) (pc : Word) (pa : Nat) :
    after.usable? space pc pa = engine.usable? space pc pa := by
  unfold usable? Cache.find? secondUsable
  simp only [same.installed, same.frames.version]

theorem refreshShortcuts_cache (engine : Engine) :
    Ends refreshShortcuts engine (fun _ after => after.cache = engine.cache) fun _ _ => False := by
  unfold refreshShortcuts
  rw [ends_modify]
  split <;> rfl

theorem usableBlock_usable (sound : engine.Sound) (space : AddressSpace) (pc : Word) (pa : Nat) :
    Ends (usableBlock space pc pa) engine (fun found _ => found = engine.usable? space pc pa) fun _ _ => False := by
  unfold usableBlock usable?
  rw [ends_bind]
  refine (lookupBlock_find sound.cache.keys sound.cache.invalid pa).mono ?_ fun _ _ => False.elim
  rintro found after ⟨rfl, frames⟩
  cases known : engine.cache.find? pa with
  | none => exact rfl
  | some block =>
    have live := sound.cache.live block (Cache.find_some known).1 block.stamp.first (List.mem_cons_self ..)
    dsimp only
    rw [ends_bind, ends_get, frames]
    cases valid : block.valid with
    | false => simp [Option.filter, valid]
    | true =>
      rw [if_neg (by simp), if_neg (fun moved => moved live), ends_pure]
      simp [Option.filter, valid]

end Engine

namespace AddressSpace.Leads

variable {space : AddressSpace} {pc : Word} {pa other : Nat}

theorem unique (leads : space.Leads pc pa) (there : space.Leads pc other) : other = pa := by
  obtain ⟨-, place, found, rfl⟩ := leads
  obtain ⟨-, place', found', rfl⟩ := there
  rw [Option.some.inj (found'.symm.trans found)]

end AddressSpace.Leads

namespace LoopM

-- What a turn puts on record. If pc leads nowhere that is nothing; else one block is entered, at the address pc leads to
-- and in the manner the engine calls for, before the stores it makes.
structure Recorded (fuel : Nat) (space : AddressSpace) (chain : Option Nat) (core : Core Engine) : Prop where
  astray : (∀ pa, ¬ space.Leads core.hart.pc pa) → turnRecord fuel space chain core = []
  leads : ∀ pa, space.Leads core.hart.pc pa → ∃ writes asked, turnRecord fuel space chain core =
    stores writes ++ [.entered pa (core.device.manner space core.hart.pc pa) asked]

variable {τ : Type} {space : AddressSpace} {handler : TrapHandler τ} {start core : Core Engine} {memory : τ}
  {chain : Option Nat} {pa : Nat}

theorem dispatchRecord_manner {engine : Engine} (sound : engine.Sound) (hart : Hart) (fuel : Nat) (space : AddressSpace)
    (pc : Word) (pa : Nat) : ∃ writes asked, dispatchRecord fuel space pc pa ⟨hart, engine⟩ =
      stores writes ++ [.entered pa (engine.manner space pc pa) asked] := by
  obtain ⟨_, entered, entering, watched, -⟩ := (Engine.enterFrame_watch (Page.frame pa) engine).answers
  have quiet := (Engine.enterFrame_quiet sound _).answer entering
  have usable := Engine.usable_undisturbed ((Engine.enterFrame_upkeep _ _).answer entering).cache space pc pa
  have state : entered.cache.frames.state (Page.frame pa) = engine.cache.frames.state (Page.frame pa) :=
    (congrFun (congrArg Watch.state watched) _).trans (Watch.enter_here ..)
  unfold dispatchRecord Engine.manner
  rw [following_ok (onEngine_answers entering), ← state, ← usable]
  dsimp only
  by_cases hit : entered.cache.frames.state (Page.frame pa) = .smcDetected
  · rw [if_pos hit, if_pos hit]
    exact ⟨_, _, rfl⟩
  · obtain ⟨found, looked, looking, rfl⟩ := (Engine.usableBlock_usable quiet.sound space pc pa).answers
    rw [if_neg hit, if_neg hit, following_ok (onEngine_answers looking)]
    cases entered.usable? space pc pa with
    | some block => exact ⟨_, _, rfl⟩
    | none =>
      obtain ⟨_, missed, missing, -⟩ := (Engine.miss_watch space pc pa looked).answers
      dsimp only
      rw [following_ok (onEngine_answers missing)]
      exact ⟨_, _, rfl⟩

theorem turnRecord_leads (sound : core.device.Sound) (fuel : Nat)
    (known : ∀ pa, chain = some pa → space.Leads core.hart.pc pa) (leads : space.Leads core.hart.pc pa) :
    ∃ writes asked, turnRecord fuel space chain core =
      stores writes ++ [.entered pa (core.device.manner space core.hart.pc pa) asked] := by
  obtain ⟨_, fresh, refreshing, quiet⟩ := (Engine.refreshShortcuts_quiet sound).answers
  have same : fresh.cache = core.device.cache := (Engine.refreshShortcuts_cache core.device).answer refreshing
  unfold turnRecord nextRecord
  rw [following_ok (onEngine_answers refreshing), ← Engine.manner_cache same]
  cases chain with
  | some there =>
    have here := leads.unique (known there rfl)
    have counted := quiet.sound.counted fun counts => { counts with chained := counts.chained + 1 }
    subst here
    exact dispatchRecord_manner counted.sound core.hart fuel space core.hart.pc there
  | none =>
    obtain ⟨even, place, found, rfl⟩ := leads
    dsimp only
    rw [if_neg (by omega), found]
    exact dispatchRecord_manner quiet.sound core.hart fuel space core.hart.pc place.pa

theorem turnRecord_astray (fuel : Nat) (known : ∀ pa, chain = some pa → space.Leads core.hart.pc pa)
    (astray : ∀ pa, ¬ space.Leads core.hart.pc pa) : turnRecord fuel space chain core = [] := by
  obtain ⟨_, fresh, refreshing, -⟩ := (Engine.refreshShortcuts_watch core.device).answers
  unfold turnRecord nextRecord
  rw [following_ok (onEngine_answers refreshing)]
  cases chain with
  | some there => exact absurd (known there rfl) (astray there)
  | none =>
    dsimp only
    split
    · rfl
    · rename_i even
      cases found : space .fetch core.hart.pc with
      | none => rfl
      | some place => exact absurd ⟨by omega, place, found, rfl⟩ (astray place.pa)

theorem turnRecord_recorded (sound : core.device.Sound) (fuel : Nat)
    (known : ∀ pa, chain = some pa → space.Leads core.hart.pc pa) : Recorded fuel space chain core :=
  ⟨turnRecord_astray fuel known, fun _ => turnRecord_leads sound fuel known⟩

theorem Recorded.even {fuel : Nat} (recorded : Recorded fuel space chain core) (granular : space.Granular) :
    Even (turnRecord fuel space chain core) := by
  by_cases leads : ∃ pa, space.Leads core.hart.pc pa
  · obtain ⟨pa, leads⟩ := leads
    obtain ⟨writes, asked, record⟩ := recorded.leads pa leads
    rw [record, Occurrence.even_append]
    refine ⟨Occurrence.even_stores writes, fun other manner asked member => ?_⟩
    cases List.mem_singleton.mp member
    exact leads.even granular
  · rw [recorded.astray fun pa there => leads ⟨pa, there⟩]
    exact Occurrence.even_nil

theorem runRecord_even (granular : space.Granular) (limit : Option Nat) (fuel : Nat) : ∀ {blocks chain kept core},
    (Turn.again chain kept).Explained space handler start memory core →
    Even (runRecord space handler limit fuel blocks chain kept core) := by
  induction fuel with
  | zero => exact fun _ => Occurrence.even_nil
  | succ fuel ih =>
    intro blocks chain kept core explained
    have turned := (turnRecord_recorded explained.1.sound fuel explained.2).even granular
    unfold runRecord
    split
    · exact Occurrence.even_nil
    · split
      · rename_i ran
        have explained' := (turn_explained granular fuel explained.1 explained.2).answer ran
        exact Occurrence.even_append.mpr ⟨ih explained', turned⟩
      · exact turned

end LoopM

namespace Engine

variable {engine : Engine} {ram : Ram} {config : Config} {past : List Occurrence}

theorem Chronicle.reached (chronicle : Chronicle AddressSpace.Granular config ram past engine) : Reached ram engine := by
  induction chronicle with
  | setup built => exact .setup built
  | run _ granular ran ih => exact .call ih (.run granular ran)
  | store _ ran ih => exact .call ih (.store ran)
  | fulfil _ ran ih => exact .call ih (.fulfil ran)

theorem Chronicle.even (chronicle : Chronicle AddressSpace.Granular config ram past engine) : Even past := by
  induction chronicle with
  | setup _ => exact Occurrence.even_nil
  | run before granular _ ih =>
    have sound := (reached_sound before.reached).1
    refine Occurrence.even_append.mpr ⟨?_, ih⟩
    exact LoopM.runRecord_even granular _ _ ⟨.begin sound, fun _ absent => by cases absent⟩
  | store _ _ ih => exact Occurrence.even_append.mpr ⟨Occurrence.even_stores _, ih⟩
  | fulfil _ _ ih =>
    intro pa manner asked member
    rcases List.mem_cons.mp member with now | earlier
    · cases now
    · exact ih pa manner asked earlier

-- The heat of an address is the number of its misses since its frame was written, as far as it can be counted. Blocks that
-- are found, evicted, refused or installed leave it alone, and nothing is queued with fewer misses than the threshold.
theorem Chronicle.heat_counts_misses (chronicle : Chronicle AddressSpace.Granular config ram past engine) :
    (∀ pa, pa % 2 = 0 → engine.cache.frames.covers (Page.frame pa) = true →
      engine.cache.frames.heat pa = min FrameTable.heatLimit (misses pa past)) ∧
    engine.queue.waiting.map (·.entryPa) = queued past ∧
    (∀ newer older pa manner, past = newer ++ .entered pa manner true :: older →
      manner = .missed ∧ config.promotionThreshold ≤ misses pa (.entered pa manner true :: older)) ∧
    (∀ count after, fulfilAll engine = .ok count after → after.cache.frames.heat = engine.cache.frames.heat) ∧
    ∀ {τ : Type} (space : AddressSpace) (handler : TrapHandler τ) (memory kept : τ) (hart : Hart) (blocks : Nat)
      (chain : Option Nat) (core : Core Engine), space.Granular →
      LoopM.Underway space handler memory ⟨hart, engine⟩ blocks chain kept core →
      ∀ fuel, LoopM.Recorded fuel space chain core := by
  obtain ⟨_, new, built, path⟩ := chronicle.path
  obtain ⟨threshold, -, cold, idle⟩ := setup_watch built
  have sound := (reached_sound chronicle.reached).1
  refine ⟨?_, path.waiting_queued idle, ?_, ?_, ?_⟩
  · intro pa even tracked
    rw [show engine.cache.frames.covers = new.watch.tracked from path.tracked.1] at tracked
    exact (path.heat_misses (cold pa) even chronicle.even).trans (if_pos tracked)
  · rintro newer older pa manner rfl
    obtain ⟨missed, hot⟩ := path.queued_hot (cold pa) (by omega) chronicle.even
    exact ⟨missed, by omega⟩
  · intro count after drained
    exact congrArg Watch.heat ((fulfilAll_watch engine).answer drained)
  · intro τ space handler memory kept hart blocks chain core granular underway fuel
    obtain ⟨traced, known⟩ := underway.explained granular sound
    exact LoopM.turnRecord_recorded traced.sound fuel known

-- Two runs and what they record are evaluated below.
set_option synthInstance.maxSize 512

theorem countdownPage_heat : ∃ engine, Chronicle AddressSpace.Granular { promotionThreshold := 2 } countdownPage
      [.entered 4 .missed true, .entered 0 .compiled false, .drained, .entered 4 .missed false, .entered 0 .missed false,
        .entered 0 .missed true, .entered 0 .missed false] engine ∧
    engine.cache.frames.heat 0 = 3 ∧ engine.cache.frames.heat 4 = 2 ∧ engine.queue.waiting.map (·.entryPa) = [4] := by
  have computed : ∃ new, setup { promotionThreshold := 2 } countdownPage = .ok (.ok new) ∧
      ∃ answer first, LoopM.run 9 .bare halting none () ⟨fromThree, new⟩ = .ok answer first ∧
      LoopM.runRecord .bare halting none 9 0 none () ⟨fromThree, new⟩ =
        [.entered 4 .missed false, .entered 0 .missed false, .entered 0 .missed true, .entered 0 .missed false] ∧
      ∃ count drained, fulfilAll first.device = .ok count drained ∧
      ∃ answer last, LoopM.run 99 .bare halting none () ⟨fromThree, drained⟩ = .ok answer last ∧
      LoopM.runRecord .bare halting none 99 0 none () ⟨fromThree, drained⟩ =
        [.entered 4 .missed true, .entered 0 .compiled false] ∧ last.device.cache.frames.covers 0 = true := by
    decide +kernel
  obtain ⟨new, built, _, first, ran, record, _, drained, processed, _, last, again, record', covered⟩ := computed
  have chronicle : Chronicle AddressSpace.Granular { promotionThreshold := 2 } countdownPage _ last.device :=
    .run (.fulfil (.run (.setup built) .bare ran) processed) .bare again
  rw [record, record'] at chronicle
  obtain ⟨heat, waiting, -⟩ := chronicle.heat_counts_misses
  exact ⟨last.device, chronicle, heat 0 rfl covered, heat 4 rfl covered, waiting⟩

end Engine
end TieredHart
