import TieredHart.Engine.Dispatch
import TieredHart.Proofs.Compilation
import TieredHart.Proofs.Indexing

namespace TieredHart

-- What a history remembers of an operation: code that was offered and what became of it, what was stored, and of the
-- rest only its kind.
inductive Deed where
  | published (code : HostCode) (answer : Except Refusal Block)
  | stored (pa : Nat) (data : List UInt8) (answer : Except OutOfRange StoreEffect)
  -- A block without code of its own.
  | filled
  -- Parts of a publication by themselves: an extent, the bytes, the block.
  | reserved | placed | seated
  | upkeep

def Deed.touched : Deed → List Nat
  | .stored pa data (.ok _) => if data = [] then [] else Engine.framesOf pa data.length
  | _ => []

def Deed.installs : Deed → Bool
  | .published _ (.ok _) => true
  | _ => false

def Deed.installsAt (pa : Nat) : Deed → Bool
  | .published code (.ok _) => code.entryPa = pa
  | _ => false

-- No block and no bytes come in other than by a publication as a whole.
def Deed.Whole : Deed → Prop
  | .placed | .seated => False
  | _ => True

def Deed.Regular : Deed → Prop
  | .published code _ => code.Compiled
  | .filled | .reserved | .placed | .seated => False
  | .stored .. | .upkeep => True

namespace Engine

inductive Does : Engine → Deed → Engine → Prop where
  | capture {engine after : Engine} {request : CompileRequest} {answer : Except Refusal Snapshot}
      (ran : capture request engine = .ok answer after) : Does engine .upkeep after
  | compile {engine after : Engine} {interval maxInsns : Nat} {taken : Snapshot} {answer : Except Refusal HostCode}
      (ran : compileWith interval maxInsns taken engine = .ok answer after) : Does engine .upkeep after
  | publish {engine after : Engine} {code : HostCode} {answer : Except Refusal Block}
      (ran : publish code engine = .ok answer after) : Does engine (.published code answer) after
  | fill {engine after : Engine} {pa size : Nat} {stamp : Option Stamp} {answer : Except Refusal Block}
      (ran : onCache (Cache.installFiller pa size stamp) engine = .ok answer after) : Does engine .filled after
  | reserve {engine after : Engine} {size : Nat} {answer : Except Refusal Extent}
      (ran : onCache (Cache.reserve size) engine = .ok answer after) : Does engine .reserved after
  | place {engine after : Engine} {extent : Extent} {data : List UInt8}
      (ran : onCache (Cache.placeCode extent data) engine = .ok () after) : Does engine .placed after
  | seat {engine after : Engine} {code : HostCode} {host : Extent}
      (ran : onCache (do Cache.install (← Cache.newBlock code host)) engine = .ok () after) : Does engine .seated after
  | store {engine after : Engine} {pa : Nat} {data : List UInt8} {fetch : Option Nat}
      {answer : Except OutOfRange StoreEffect} (ran : store pa data fetch engine = .ok answer after) :
      Does engine (.stored pa data answer) after
  | dropFrame {engine : Engine} (f : Nat) : Does engine .upkeep { engine with cache := (engine.cache.dropFrame f).2 }
  | recycle {engine after : Engine} {count : Nat} (ran : onCache Cache.recycle engine = .ok count after) :
      Does engine .upkeep after
  | lookup {engine : Engine} (pa : Nat) : Does engine .upkeep { engine with cache := (engine.cache.lookup pa).2 }
  | markUsed {engine : Engine} (id : Nat) : Does engine .upkeep { engine with cache := engine.cache.markUsed id }
  | acquire {engine : Engine} (id : Nat) : Does engine .upkeep { engine with cache := engine.cache.acquire id }
  | release {engine : Engine} (id : Nat) : Does engine .upkeep { engine with cache := engine.cache.release id }
  | enterFrame {engine after : Engine} {f : Nat} (ran : enterFrame f engine = .ok () after) : Does engine .upkeep after
  | lookupBlock {engine after : Engine} {pa : Nat} {found : Option Block}
      (ran : lookupBlock pa engine = .ok found after) : Does engine .upkeep after
  | miss {engine after : Engine} {space : AddressSpace} {pc : Word} {pa : Nat}
      (ran : miss space pc pa engine = .ok () after) : Does engine .upkeep after

inductive History : Engine → List Deed → Engine → Prop where
  | nil {engine : Engine} : History engine [] engine
  | cons {engine middle after : Engine} {deed : Deed} {deeds : List Deed} (does : Does engine deed middle)
      (later : History middle deeds after) : History engine (deed :: deeds) after

end Engine

namespace Cache

structure Undisturbed (cache after : Cache) : Prop extends Retuned cache after where
  frames : cache.frames.Alike after.frames
  extents : after.extents = cache.extents
  arena : after.arena = cache.arena

variable {cache after : Cache}

namespace Undisturbed

theorem booked (cache : Cache) (references : List Nat) (journal : Array Event) {counts : CacheCounts}
    (installs : counts.installs = cache.counts.installs) (evictions : counts.evictions = cache.counts.evictions)
    (invalidations : counts.invalidations = cache.counts.invalidations) :
    Undisturbed cache { cache with references := references, journal := journal, counts := counts } :=
  ⟨⟨rfl, rfl, rfl, rfl, rfl, rfl, installs, evictions, invalidations, rfl, fun _ => rfl, fun _ => rfl⟩, .refl _, rfl, rfl⟩

theorem refl (cache : Cache) : Undisturbed cache cache := booked cache cache.references cache.journal rfl rfl rfl

theorem reported (cache : Cache) (event : Event) : Undisturbed cache (cache.report event) :=
  booked cache cache.references _ rfl rfl rfl

theorem reframed {frames : FrameTable} (alike : cache.frames.Alike frames)
    (entries : ∀ f, frames.entries f = cache.frames.entries f) : Undisturbed cache { cache with frames := frames } :=
  ⟨⟨rfl, rfl, rfl, rfl, rfl, rfl, rfl, rfl, rfl, rfl, alike.covers, entries⟩, alike, rfl, rfl⟩

theorem trans {final : Cache} (first : Undisturbed cache after) (second : Undisturbed after final) :
    Undisturbed cache final := by
  refine ⟨⟨second.installed.trans first.installed, second.retired.trans first.retired, second.lru.trans first.lru,
    second.filed.trans first.filed, second.clock.trans first.clock, second.nextId.trans first.nextId,
    second.installs.trans first.installs, second.evictions.trans first.evictions,
    second.invalidations.trans first.invalidations, second.retirements.trans first.retirements,
    fun f => (second.covers f).trans (first.covers f), fun f => (second.entries f).trans (first.entries f)⟩,
    first.frames.trans second.frames, second.extents.trans first.extents, second.arena.trans first.arena⟩

theorem lookup (cache : Cache) (pa : Nat) : Undisturbed cache (cache.lookup pa).2 := by
  unfold Cache.lookup
  split <;> exact booked cache cache.references cache.journal rfl rfl rfl

theorem sheds (same : Undisturbed cache after) : Sheds [] cache after :=
  .reframed same.frames (fun f _ member => by rw [same.entries]; exact member) same.installed same.retired same.extents
    same.arena

end Undisturbed

-- All that an operation can do to the cache.
inductive Effect (cache : Cache) : Deed → Cache → Prop where
  | undisturbed {after : Cache} (same : Undisturbed cache after) : Effect cache .upkeep after
  | used (id : Nat) : Effect cache .upkeep (cache.markUsed id)
  | dropped (f : Nat) : Effect cache .upkeep (cache.dropFrame f).2
  | recycled {after : Cache} {count : Nat} (ran : recycle cache = .ok count after) : Effect cache .upkeep after
  | published {after : Cache} {code : HostCode} {answer : Except Refusal Block}
      (published : Published code cache answer after) : Effect cache (.published code answer) after
  | filled {after : Cache} {pa size : Nat} {answer : Except Refusal Block} (filled : Filled pa size cache answer after) :
      Effect cache .filled after
  | reserved {after : Cache} {size : Nat} {answer : Except Refusal Extent} (granted : Granted cache size answer after) :
      Effect cache .reserved after
  | placed {arena : Arena} : Effect cache .placed { cache with arena := arena }
  | seated {after : Cache} {code : HostCode} {host : Extent} {block : Block}
      (entered : Entered code host cache block after) : Effect cache .seated after
  | stored {after : Cache} {pa : Nat} {data : List UInt8} {fetch : Option Nat} {answer : Except OutOfRange StoreEffect}
      (same : Undisturbed (cache.framesWritten fetch (Deed.stored pa data answer).touched).2 after) :
      Effect cache (.stored pa data answer) after

end Cache

namespace Engine

variable {engine after : Engine} {deed : Deed}

structure Upkeep (engine after : Engine) : Prop where
  ram : after.ram = engine.ram
  cache : engine.cache.Undisturbed after.cache

theorem compileWith_upkeep (interval maxInsns : Nat) (taken : Snapshot) (engine : Engine) :
    Ends (compileWith interval maxInsns taken) engine
      (fun answer after => engine.Upkeep after ∧ ∀ code, answer = .ok code → code.Compiled) fun _ _ => True := by
  unfold compileWith
  rw [ends_bind, ends_get, ends_bind, ends_ofExcept]
  refine ⟨fun answer compiled => ?_, fun _ _ => trivial⟩
  cases answer with
  | error refusal => exact ⟨⟨rfl, .refl _⟩, nofun⟩
  | ok code => exact ⟨⟨rfl, .reported ..⟩, fun other same => by cases same; exact ⟨_, _, _, _, compiled⟩⟩

theorem enterFrame_upkeep (f : Nat) (engine : Engine) :
    Ends (enterFrame f) engine (fun _ after => engine.Upkeep after) fun _ _ => True := by
  unfold enterFrame
  rw [ends_bind, ends_get]
  cases engine.fetchFrame with
  | none => exact ⟨rfl, .refl _⟩
  | some previous =>
    dsimp only
    split
    · refine ⟨rfl, .trans (.reframed (.setState previous .normal) fun _ => FrameTable.entries_setState) (.reported ..)⟩
    · exact ⟨rfl, .refl _⟩

theorem lookupBlock_upkeep (pa : Nat) (engine : Engine) :
    Ends (lookupBlock pa) engine (fun _ after => engine.Upkeep after) fun _ _ => True := by
  have looked := Cache.Undisturbed.lookup engine.cache pa
  unfold lookupBlock
  rw [ends_modifyGet]
  split
  · exact ⟨rfl, .refl _⟩
  · cases answered : engine.cache.lookup pa with
    | mk found cache =>
      rw [answered] at looked
      cases found <;> exact ⟨rfl, looked⟩

theorem promote_upkeep (space : AddressSpace) (pc : Word) (pa : Nat) (engine : Engine) :
    Ends (promote space pc pa) engine (fun _ after => engine.Upkeep after) fun _ _ => True := by
  unfold promote
  rw [ends_bind, ends_get]
  dsimp only
  split
  · exact ⟨rfl, .refl _⟩
  · cases engine.queue.offer ⟨pa, pc, (space .fetch pc.nextPage).map (·.pa)⟩ with
    | mk answer queue =>
      cases answer with
      | sent => exact ⟨rfl, .reported ..⟩
      | busy => exact ⟨rfl, .refl _⟩
      | full => exact ⟨rfl, .reported ..⟩

theorem miss_upkeep (space : AddressSpace) (pc : Word) (pa : Nat) (engine : Engine) :
    Ends (miss space pc pa) engine (fun _ after => engine.Upkeep after) fun _ _ => True := by
  have warmed : Cache.Undisturbed engine.cache { engine.cache with frames := engine.cache.frames.warm pa } :=
    .reframed (.warm pa) fun _ => FrameTable.entries_warm
  unfold miss
  rw [ends_bind, ends_modify, ends_bind, ends_get]
  dsimp only
  split
  · refine (promote_upkeep ..).weaken ?_
    intro _ after upkeep
    exact ⟨upkeep.ram, warmed.trans upkeep.cache⟩
  · exact ⟨rfl, warmed⟩

theorem store_parts (pa : Nat) (data : List UInt8) (fetch : Option Nat) (engine : Engine) :
    Ends (store pa data fetch) engine (fun answer after =>
      after.ram.base = engine.ram.base ∧ after.ram.size = engine.ram.size ∧ Cache.Undisturbed
        (engine.cache.framesWritten fetch (Deed.stored pa data answer).touched).2 after.cache) fun _ _ => True := by
  refine (store_done pa data fetch engine).mono ?_ fun _ _ _ => trivial
  intro answer after done
  cases done with
  | empty blank =>
    subst blank
    exact ⟨rfl, rfl, .refl _⟩
  | refused got => exact ⟨rfl, rfl, .refl _⟩
  | wrote filled holds got noted =>
    have touched : ∀ effect, (Deed.stored pa data (.ok effect)).touched = framesOf pa data.length :=
      fun effect => if_neg filled
    rw [touched]
    rcases noted with rfl | rfl
    · exact ⟨rfl, Ram.writeBytes_size, .refl _⟩
    · exact ⟨rfl, Ram.writeBytes_size, .reported ..⟩

theorem onCache_ok {α : Type} {action : EStateM Failure Cache α} {a : α} (ran : onCache action engine = .ok a after) :
    ∃ cache, action engine.cache = .ok a cache ∧ after = { engine with cache := cache } := by
  unfold onCache at ran
  cases done : action engine.cache with
  | ok b cache => rw [done] at ran; cases ran; exact ⟨cache, rfl, rfl⟩
  | error e cache => rw [done] at ran; cases ran

theorem Does.effect (does : Does engine deed after) : Cache.Effect engine.cache deed after.cache := by
  cases does with
  | capture ran => rw [((capture_captured _ engine).answer ran).1]; exact .undisturbed (.refl _)
  | compile ran => exact .undisturbed ((compileWith_upkeep ..).answer ran).1.cache
  | publish ran =>
    obtain ⟨cache, done, rfl⟩ := onCache_ok ran
    exact .published ((Cache.publish_published ..).answer done)
  | fill ran =>
    obtain ⟨cache, done, rfl⟩ := onCache_ok ran
    exact .filled ((Cache.installFiller_filled ..).answer done)
  | reserve ran =>
    obtain ⟨cache, done, rfl⟩ := onCache_ok ran
    exact .reserved ((Cache.reserve_granted ..).answer done)
  | place ran =>
    obtain ⟨cache, done, rfl⟩ := onCache_ok ran
    obtain ⟨-, arena, -, rfl⟩ := Cache.placeCode_parts done
    exact .placed
  | seat ran =>
    obtain ⟨cache, done, rfl⟩ := onCache_ok ran
    obtain ⟨block, entered⟩ := (Cache.install_entered ..).answer done
    exact .seated entered
  | store ran => exact .stored ((store_parts ..).answer ran).2.2
  | dropFrame f => exact .dropped f
  | recycle ran =>
    obtain ⟨cache, done, rfl⟩ := onCache_ok ran
    exact .recycled done
  | lookup pa => exact .undisturbed (.lookup ..)
  | markUsed id => exact .used id
  | acquire id => exact .undisturbed (.booked _ _ _ rfl rfl rfl)
  | release id => exact .undisturbed (.booked _ _ _ rfl rfl rfl)
  | enterFrame ran => exact .undisturbed ((enterFrame_upkeep ..).answer ran).cache
  | lookupBlock ran => exact .undisturbed ((lookupBlock_upkeep ..).answer ran).cache
  | miss ran => exact .undisturbed ((miss_upkeep ..).answer ran).cache

theorem Does.memory (does : Does engine deed after) :
    after.ram.base = engine.ram.base ∧ after.ram.size = engine.ram.size := by
  have same : after.ram = engine.ram → after.ram.base = engine.ram.base ∧ after.ram.size = engine.ram.size := by
    intro same
    rw [same]
    exact ⟨rfl, rfl⟩
  have cached : ∀ {α : Type} {action : EStateM Failure Cache α} {a : α}, onCache action engine = .ok a after →
      after.ram.base = engine.ram.base ∧ after.ram.size = engine.ram.size := by
    intro α action a ran
    obtain ⟨cache, -, rfl⟩ := onCache_ok ran
    exact ⟨rfl, rfl⟩
  cases does with
  | capture ran => exact same (by rw [((capture_captured _ engine).answer ran).1])
  | compile ran => exact same ((compileWith_upkeep ..).answer ran).1.ram
  | publish ran => exact cached ran
  | fill ran => exact cached ran
  | reserve ran => exact cached ran
  | place ran => exact cached ran
  | seat ran => exact cached ran
  | recycle ran => exact cached ran
  | store ran =>
    obtain ⟨base, size, -⟩ := (store_parts ..).answer ran
    exact ⟨base, size⟩
  | enterFrame ran => exact same ((enterFrame_upkeep ..).answer ran).ram
  | lookupBlock ran => exact same ((lookupBlock_upkeep ..).answer ran).ram
  | miss ran => exact same ((miss_upkeep ..).answer ran).ram
  | dropFrame _ => exact ⟨rfl, rfl⟩
  | lookup _ => exact ⟨rfl, rfl⟩
  | markUsed _ => exact ⟨rfl, rfl⟩
  | acquire _ => exact ⟨rfl, rfl⟩
  | release _ => exact ⟨rfl, rfl⟩

end Engine
end TieredHart
