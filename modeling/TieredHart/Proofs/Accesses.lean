import TieredHart.Proofs.Compilation
import TieredHart.Proofs.PlainMachine

namespace TieredHart

-- Failures that are not the engine's own: memory that does not end below the host's limit, a store that does not, and an
-- interrupt line that does not exist.
def Excused (ram : Ram) (space : AddressSpace) (failure : Failure) : Prop :=
  ¬ ram.Fits ∨ (∃ pa len, failure = .storeEnd pa len ∧ hostLimit ≤ pa + len) ∨
    failure = .interruptLine ∧ ∃ kind va place code, space kind va = some place ∧ place.irq = some code ∧ 64 ≤ code

theorem Excused.earlier {ram ram' : Ram} {frames frames' : FrameTable} {space : AddressSpace} {failure : Failure}
    (evolves : Evolves ram frames ram' frames') (excused : Excused ram' space failure) : Excused ram space failure := by
  rcases excused with unfit | external
  · exact .inl fun fits => unfit (evolves.fits fits)
  · exact .inr external

namespace Engine

structure Onward (engine after : Engine) : Prop where
  sound : after.Sound
  evolves : Evolves engine.ram engine.cache.frames after.ram after.cache.frames
  traps : after.cache.traps = engine.cache.traps

variable {engine after final : Engine}

theorem Onward.refl (sound : engine.Sound) : engine.Onward engine := ⟨sound, .refl _ _, rfl⟩

theorem Onward.trans (first : engine.Onward after) (second : after.Onward final) : engine.Onward final :=
  ⟨second.sound, first.evolves.trans second.evolves, second.traps.trans first.traps⟩

structure Quiet (engine after : Engine) : Prop extends Stays engine after where
  traps : after.cache.traps = engine.cache.traps

theorem Quiet.trans (first : engine.Quiet after) (second : after.Quiet final) : engine.Quiet final :=
  ⟨first.toStays.trans second.toStays, second.traps.trans first.traps⟩

theorem Quiet.onward (quiet : engine.Quiet after) : engine.Onward after :=
  ⟨quiet.sound, quiet.toStays.evolves, quiet.traps⟩

theorem Sound.reported (sound : engine.Sound) {event : Event} (untrapped : event.trap? = none) :
    engine.Quiet { engine with cache := engine.cache.report event } := by
  refine ⟨sound.recached (.same rfl rfl rfl rfl rfl) rfl rfl, ?_⟩
  rw [Cache.traps_report, untrapped]
  exact List.append_nil _

theorem Sound.counted (sound : engine.Sound) (change : RunCounts → RunCounts) :
    engine.Quiet { engine with counts := change engine.counts } :=
  ⟨sound.recached (.same rfl rfl rfl rfl rfl) rfl rfl, rfl⟩

end Engine

-- The data side of a block that was entered with an engine. Until it asks for the block to be left, the frames the block
-- was built from stand.
structure DataSide.Serves (start : Engine) (codeFrames : List Nat) (side : DataSide) (ram : Ram) : Prop where
  onward : start.Onward side.engine
  ram : side.engine.ram = ram
  still : side.exit = false → ∀ f ∈ codeFrames,
    side.engine.cache.frames.version f = start.cache.frames.version f

variable {space : AddressSpace} {kind : Access} {va : Word}

theorem Lines.raised_error {lines : Word} {code : Nat} {failure : Failure}
    (failed : Lines.raised lines code = .error failure) :
    failure = .interruptLine ∧ 64 ≤ code := by
  unfold Lines.raised Lines.mask at failed
  by_cases known : code < 64
  · rw [if_pos known] at failed
    cases failed
  · rw [if_neg known] at failed
    cases failed
    exact ⟨rfl, Nat.le_of_not_lt known⟩

theorem AddressSpace.locate_eq {σ : Type} (s : Attached σ) : AddressSpace.locate space kind va s =
    match space kind va with
    | none => .ok (.error (PageFault.fault ⟨va, kind⟩)) s
    | some place => match place.irq with
      | none => .ok (.ok place.pa) s
      | some code => match Lines.raised s.lines code with
        | .ok lines => .ok (.ok place.pa) { s with lines := lines }
        | .error failure => .error failure s := by
  unfold AddressSpace.locate
  cases space kind va with
  | none => rfl
  | some place =>
    dsimp only
    cases place.irq with
    | none => rfl
    | some code =>
      have here : (get : EStateM Failure (Attached σ) (Attached σ)) s = .ok s s := rfl
      dsimp only
      rw [EStateM.bind_ok here]
      cases Lines.raised s.lines code <;> rfl

theorem AddressSpace.locate_same {σ β : Type} (lines : Word) (d : σ) (e : β) :
    Ends (AddressSpace.locate space kind va) ⟨lines, d⟩
      (fun answer s => s.device = d ∧ AddressSpace.locate space kind va ⟨lines, e⟩ = .ok answer ⟨s.lines, e⟩ ∧
        ∀ pa, answer = .ok pa → ∃ place, space kind va = some place ∧ place.pa = pa)
      fun failure _ => failure = .interruptLine ∧
        ∃ kind va place code, space kind va = some place ∧ place.irq = some code ∧ 64 ≤ code := by
  unfold Ends
  rw [AddressSpace.locate_eq]
  simp only [AddressSpace.locate_eq]
  cases found : space kind va with
  | none => exact ⟨rfl, rfl, nofun⟩
  | some place =>
    dsimp only
    cases raised : place.irq with
    | none => exact ⟨rfl, rfl, fun pa same => ⟨place, rfl, Except.ok.inj same⟩⟩
    | some code =>
      dsimp only
      cases line : Lines.raised lines code with
      | ok lines' => exact ⟨rfl, rfl, fun pa same => ⟨place, rfl, Except.ok.inj same⟩⟩
      | error failure =>
        obtain ⟨same, missing⟩ := Lines.raised_error line
        exact ⟨same, kind, va, place, code, found, raised, missing⟩

namespace DataSide

variable {start : Engine} {codeFrames : List Nat} {side : DataSide} {ram : Ram} {width : Width} {lines : Word}

theorem ends_onEngine {α : Type} {action : EngineM α} {s : Attached DataSide} {good : α → Attached DataSide → Prop}
    {bad : Failure → Attached DataSide → Prop} : Ends (onEngine action) s good bad ↔ Ends action s.device.engine
      (fun a engine => good a { s with device := { s.device with engine := engine } })
      fun e engine => bad e { s with device := { s.device with engine := engine } } := by
  unfold Ends onEngine
  cases action s.device.engine <;> rfl

theorem load_follows (serves : Serves start codeFrames side ram) :
    Ends (load space va width) ⟨lines, side⟩ (fun answer s => ∃ ram', Plain.load space va width ⟨lines, ram⟩ =
      .ok answer ⟨s.lines, ram'⟩ ∧ Serves start codeFrames s.device ram')
      fun failure _ => Excused start.ram space failure := by
  unfold load Plain.load
  rw [ends_bind]
  refine (AddressSpace.locate_same lines side ram).mono ?_ fun _ _ line => .inr (.inr line)
  rintro answer ⟨lines', device⟩ ⟨rfl, located, -⟩
  rw [EStateM.bind_ok located]
  cases answer with
  | error fault => exact ⟨ram, rfl, serves⟩
  | ok pa =>
    dsimp only
    rw [ends_bind, ends_onEngine, Engine.ends_readRam]
    have here : (get : EStateM Failure (Attached Ram) (Attached Ram)) ⟨lines', ram⟩ = .ok ⟨lines', ram⟩ ⟨lines', ram⟩ := rfl
    rw [EStateM.bind_ok here, ← serves.ram]
    constructor
    · intro answer got
      rw [got]
      cases answer with
      | error range => exact ⟨_, rfl, serves.ram ▸ serves⟩
      | ok bytes => exact ⟨_, rfl, serves.ram ▸ serves⟩
    · intro failure failed
      exact .inl fun fits => Ram.read_error failed (serves.onward.evolves.fits fits)

theorem framesOf_page {pa len : Nat} (filled : 0 < len) (onPage : Page.offset pa + len ≤ 4096) :
    Engine.framesOf pa len = [Page.frame pa] := by
  have last : Page.frame (pa + len - 1) = Page.frame pa := by
    unfold Page.offset at onPage
    unfold Page.frame
    omega
  unfold Engine.framesOf
  rw [last, Nat.sub_self]
  rfl

theorem access_onPage (granular : space.Granular) {place : Location} (found : space kind va = some place)
    (aligned : va.toNat % width.bytes = 0) : Page.offset place.pa + width.bytes ≤ 4096 := by
  have offset := granular.offset _ _ _ found
  unfold Page.offset
  cases width <;> simp only [Width.bytes] at aligned ⊢ <;> omega

theorem Serves.stored (serves : Serves start codeFrames side ram) {pa : Nat} {data : List UInt8} {fetch : Option Nat}
    {answer : Except OutOfRange StoreEffect} {after : Engine} (stored : side.engine.Stored pa data fetch answer after)
    {exit : Bool} (asks : exit = false → side.exit = false ∧ ∀ f ∈ codeFrames, f ∉ Engine.framesOf pa data.length) :
    Serves start codeFrames ⟨after, exit⟩ after.ram := by
  refine ⟨serves.onward.trans ⟨stored.sound, stored.evolves, stored.traps⟩, rfl, ?_⟩
  intro stays f member
  obtain ⟨before, away⟩ := asks stays
  exact (stored.still f (away f member)).trans (serves.still before f member)

theorem store_follows (granular : space.Granular) {fetch : Nat} {value : Word} (aligned : va.toNat % width.bytes = 0)
    (serves : Serves start codeFrames side ram) : Ends (store space fetch codeFrames va width value) ⟨lines, side⟩
      (fun answer s => ∃ ram', Plain.store space va width value ⟨lines, ram⟩ = .ok answer ⟨s.lines, ram'⟩ ∧
        Serves start codeFrames s.device ram') fun failure _ => Excused start.ram space failure := by
  unfold store Plain.store
  rw [ends_bind]
  refine (AddressSpace.locate_same lines side ram).mono ?_ fun _ _ line => .inr (.inr line)
  rintro answer ⟨lines', device⟩ ⟨rfl, located, found⟩
  rw [EStateM.bind_ok located]
  cases answer with
  | error fault => exact ⟨ram, rfl, serves⟩
  | ok pa =>
    obtain ⟨place, known, rfl⟩ := found pa rfl
    have onPage := access_onPage granular known aligned
    have filled : 0 < width.bytes := by cases width <;> decide
    have frames : Engine.framesOf place.pa (Bytes.ofNat width.bytes value.toNat).length = [Page.frame place.pa] := by
      rw [Bytes.ofNat_length]
      exact framesOf_page filled onPage
    have here : (get : EStateM Failure (Attached Ram) (Attached Ram)) ⟨lines', ram⟩ = .ok ⟨lines', ram⟩ ⟨lines', ram⟩ := rfl
    dsimp only
    rw [ends_bind, ends_onEngine, EStateM.bind_ok here, ← serves.ram]
    refine (Engine.store_stored serves.onward.sound).mono ?_ ?_
    · intro answer after stored
      cases answer with
      | error range =>
        obtain ⟨rfl, refused⟩ := stored.refused range rfl
        rw [refused]
        exact ⟨_, rfl, serves.ram ▸ serves⟩
      | ok effect =>
        have data : Bytes.ofNat width.bytes value.toNat ≠ [] := fun empty => by
          have length := Bytes.ofNat_length width.bytes value.toNat
          rw [empty] at length
          exact absurd length (Nat.ne_of_lt filled)
        obtain ⟨written, -⟩ := stored.written effect rfl data
        rw [written]
        have hits : ∀ f ∈ codeFrames, f ∈ Engine.framesOf place.pa (Bytes.ofNat width.bytes value.toNat).length →
            codeFrames.contains (Page.frame place.pa) = true := by
          intro f member hit
          rw [frames, List.mem_singleton] at hit
          exact List.contains_iff_mem.mpr (hit ▸ member)
        dsimp only
        cases leaves : effect.samePage || codeFrames.contains (Page.frame place.pa) with
        | true => exact ⟨_, rfl, serves.stored stored nofun⟩
        | false =>
          refine ⟨_, rfl, serves.stored stored fun stays => ⟨stays, fun f member hit => ?_⟩⟩
          rw [hits f member hit, Bool.or_true] at leaves
          cases leaves
    · rintro failure engine (⟨wraps, beyond⟩ | unfit)
      · exact .inr (.inl ⟨_, _, wraps, beyond⟩)
      · exact .inl fun fits => unfit (serves.onward.evolves.fits fits)

-- What code of a block asks of its data side, the plain bus answers alike.
theorem codeBus_follows (granular : space.Granular) (start : Engine) (fetch : Nat) (codeFrames : List Nat) :
    (codeBus space fetch codeFrames).toBus.Follows (Plain.bus space) (Serves start codeFrames)
      (Excused start.ram space) where
  load _ _ _ _ _ serves _ := load_follows serves
  store _ _ _ _ _ _ serves aligned := store_follows granular aligned serves

end DataSide
end TieredHart
