import TieredHart.Proofs.Holdings
import TieredHart.Proofs.Layout

namespace TieredHart

open ExtentPool (cover cover_append cover_single_eq cover_mem)

namespace Arena

variable {arena : Arena} {offset start stop i : Nat} {data : List UInt8}

theorem byte_grown (written : Array UInt8) (count i : Nat) :
    (written ++ Array.replicate count 0)[i]?.getD 0 = written[i]?.getD 0 := by
  rw [Array.getElem?_append]
  split
  · rfl
  · rename_i beyond
    rw [Array.getElem?_eq_none (by omega : written.size ≤ i), Array.getElem?_replicate]
    split <;> rfl

theorem writeBytes_outside (outside : i < offset ∨ offset + data.length ≤ i) :
    (arena.writeBytes offset data).byte i = arena.byte i := by
  unfold byte writeBytes
  rw [Array.getD_eq_getD_getElem?, Array.getD_eq_getD_getElem?, Bytes.overwrite_outside _ _ _ _ outside, byte_grown]

theorem writeBytes_inside (low : offset ≤ i) (high : i < offset + data.length) :
    (arena.writeBytes offset data).byte i = data[i - offset]?.getD 0 := by
  unfold byte writeBytes
  rw [Array.getD_eq_getD_getElem?, Bytes.overwrite_inside _ _ _ _ low high]
  rw [Array.size_append, Array.size_replicate]
  omega

theorem readBytes_apart (apart : stop ≤ offset ∨ offset + data.length ≤ start) :
    (arena.writeBytes offset data).readBytes start stop = arena.readBytes start stop := by
  unfold readBytes
  congr
  funext i
  exact writeBytes_outside (by omega)

theorem readBytes_written (tight : stop = offset + data.length) :
    (arena.writeBytes offset data).readBytes offset stop = data.toArray := by
  unfold readBytes
  apply Array.ext
  · simp only [Array.size_ofFn, List.size_toArray]
    omega
  · intro i low high
    rw [Array.getElem_ofFn, writeBytes_inside (by omega) (by simp at high; omega)]
    simp at high
    simp [high]

theorem write_ok (inside : offset + data.length ≤ arena.capacity) (bounded : arena.capacity < hostLimit) :
    arena.write offset data = .ok (arena.writeBytes offset data) := by
  unfold write checkedAdd
  rw [if_pos (by omega)]
  simp only [bind, Except.bind, if_pos inside, pure, Except.pure]

end Arena

namespace Cache

variable {cache : Cache} {size need rounds : Nat}

structure Reserved (cache : Cache) (need : Nat) (extent : Extent) : Prop where
  whole : extent.Whole cache.extents.capacity
  size : extent.size = need
  apart : ∀ i, cover cache.extents.free i + cover cache.hosts i + cover [extent] i ≤ 1

theorem take_reserved (orderly : cache.Orderly) (given : ExtentPool.rounded size = .ok need) {extent : Extent}
    {extents : ExtentPool} (took : cache.extents.take need = some (extent, extents)) :
    Orderly { cache with extents := extents } ∧ Within cache { cache with extents := extents } ∧
      Reserved { cache with extents := extents } need extent := by
  have units := ExtentPool.rounded_units given
  obtain ⟨pool, capacity, whole, tight, parts⟩ :=
    ExtentPool.take_wellFormed orderly.pool (by omega) (by omega) took
  refine ⟨⟨orderly.keys, orderly.invalid, pool, ?_, ?_, ?_, orderly.live, orderly.listed⟩,
    ⟨(Within.refl cache).installed, .refl _, rfl, capacity⟩, ⟨by rw [capacity]; exact whole, tight, ?_⟩⟩
  · intro i
    have apart := orderly.apart i
    have taken := parts i
    show cover extents.free i + cover cache.hosts i ≤ 1
    omega
  · intro host member
    rw [capacity]
    exact orderly.whole host member
  · rw [capacity]
    exact orderly.room
  · intro i
    have apart := orderly.apart i
    have taken := parts i
    show cover extents.free i + cover cache.hosts i + cover [extent] i ≤ 1
    omega

theorem victim_sheds (cache : Cache) : Sheds [] cache (victim cache).2 := .same rfl rfl rfl rfl rfl

theorem evict_sheds (orderly : cache.Orderly) (pa : Nat) :
    ∃ gone, Sheds gone cache ((cache.remove pa .evicted).getD cache) := by
  cases removed : cache.remove pa .evicted with
  | none => exact ⟨[], .same rfl rfl rfl rfl rfl⟩
  | some after => exact ⟨[pa], remove_sheds orderly.keys removed⟩

theorem makeRoom_reserved (orderly : cache.Orderly) (given : ExtentPool.rounded size = .ok need) :
    Ends (makeRoom size rounds) cache (fun answer after => after.Orderly ∧ Within cache after ∧
      ∀ extent, answer = .ok extent → after.Reserved need extent) fun _ _ => False := by
  induction rounds generalizing cache with
  | zero => exact ⟨orderly, .refl cache, nofun⟩
  | succ rounds ih =>
    unfold makeRoom
    have alloc : cache.extents.alloc size = .ok (cache.extents.take need) := by
      unfold ExtentPool.alloc
      rw [given]
      rfl
    rw [ends_bind, ends_get, ends_bind, alloc, ends_ofExcept_ok]
    cases took : cache.extents.take need with
    | some found =>
      obtain ⟨orderly', inside, reserved⟩ := take_reserved orderly given took
      exact ⟨orderly', inside, fun extent same => by cases same; exact reserved⟩
    | none =>
      have looked := victim_sheds cache
      have orderly' := orderly.sheds looked
      simp only [ends_bind, ends_modifyGet]
      cases found : (victim cache).1 with
      | none =>
        have refused : ∀ counts, Sheds [] cache { (victim cache).2 with counts := counts } :=
          fun _ => looked.followed (.same rfl rfl rfl rfl rfl)
        exact ⟨orderly.sheds (refused _), (refused _).toWithin, nofun⟩
      | some pa =>
        obtain ⟨gone, evicted⟩ := evict_sheds orderly' pa
        simp only [ends_bind, ends_modify]
        refine (recycle_orderly (orderly'.sheds evicted)).mono ?_ fun _ _ => False.elim
        rintro count after ⟨orderly'', recycled⟩
        refine (ih orderly'').weaken ?_
        rintro answer final ⟨settled, inside, reserved⟩
        exact ⟨settled, ((looked.toWithin.trans evicted.toWithin).trans recycled).trans inside, reserved⟩

theorem reserve_reserved (orderly : cache.Orderly) :
    Ends (reserve size) cache (fun answer after => after.Orderly ∧ Within cache after ∧
      ∀ extent, answer = .ok extent → ∃ need, ExtentPool.rounded size = .ok need ∧ after.Reserved need extent)
      fun _ _ => hostLimit ≤ max size 1 + 16 := by
  unfold reserve
  rw [ends_bind, ends_ofExcept]
  refine ⟨fun need given => ?_, fun _ failed => ExtentPool.rounded_error failed⟩
  rw [ends_bind, ends_get]
  split
  · exact ⟨orderly, .refl cache, nofun⟩
  · rw [ends_bind]
    refine (recycle_orderly orderly).mono ?_ fun _ _ => False.elim
    rintro count middle ⟨orderly', recycled⟩
    rw [ends_bind, ends_get]
    refine (makeRoom_reserved orderly' given).mono ?_ fun _ _ => False.elim
    rintro answer after ⟨orderly'', inside, reserved⟩
    exact ⟨orderly'', recycled.trans inside, fun extent same => ⟨need, given, reserved extent same⟩⟩

end Cache

def HostCode.Compiled (code : HostCode) : Prop :=
  ∃ taken poll interval maxInsns, Compile.compile poll interval maxInsns taken = .ok (.ok code)

def HostCode.Sourced (ram : Ram) (frames : FrameTable) (code : HostCode) : Prop :=
  ∃ taken poll interval maxInsns, Snapshot.Tracks ram frames taken ∧
    Compile.compile poll interval maxInsns taken = .ok (.ok code)

def Block.Backed (ram : Ram) (frames : FrameTable) (arena : Arena) (block : Block) : Prop :=
  ∃ code : HostCode, code.Sourced ram frames ∧ block.entryPa = code.entryPa ∧ block.guestLen = code.guestLen ∧
    block.stamp = code.stamp ∧ arena.readBytes block.host.start block.host.stop = code.code

structure Cache.Sound (ram : Ram) (cache : Cache) : Prop extends Orderly cache where
  backed : ∀ block ∈ cache.installed, block.Backed ram cache.frames cache.arena

variable {ram ram' : Ram} {frames frames' : FrameTable} {cache cache' : Cache} {code : HostCode} {data : List UInt8}

theorem HostCode.Sourced.evolves (sourced : code.Sourced ram frames) (framed : ram.Framed frames)
    (evolves : Evolves ram frames ram' frames') : code.Sourced ram' frames' := by
  obtain ⟨taken, poll, interval, maxInsns, tracks, compiled⟩ := sourced
  exact ⟨taken, poll, interval, maxInsns, tracks.evolves framed evolves, compiled⟩

theorem HostCode.Compiled.size (compiled : code.Compiled) :
    code.code.size % 16 = 0 ∧ 0 < code.code.size ∧ code.code.size < 1048576 := by
  obtain ⟨taken, poll, interval, maxInsns, compiled⟩ := compiled
  have scanned := Body.scan_scanned taken maxInsns
  have count := (scanned.offsets (Nat.le_refl _)).1
  have reach := (scanned.offsets (Nat.le_refl _)).2.1
  have records := Compile.startAt_bound (Body.scan taken maxInsns).loopHeader? interval
    (Body.scan taken maxInsns).insns.length
  have size := (Compile.compiled_laid compiled).size
  unfold Page.rest at reach
  omega

theorem HostCode.Compiled.small (compiled : code.Compiled) : max code.code.size 1 + 16 < hostLimit := by
  have size := compiled.size
  unfold hostLimit
  omega

theorem HostCode.Sourced.compiled (sourced : code.Sourced ram frames) : code.Compiled := by
  obtain ⟨taken, poll, interval, maxInsns, -, compiled⟩ := sourced
  exact ⟨taken, poll, interval, maxInsns, compiled⟩

theorem Block.Backed.within {arena : Arena} {block old : Block} (backed : old.Backed ram frames arena) (like : block.Like old)
    (framed : ram.Framed frames) (evolves : Evolves ram frames ram' frames') : block.Backed ram' frames' arena := by
  obtain ⟨code, sourced, entryPa, guestLen, stamp, host⟩ := backed
  refine ⟨code, sourced.evolves framed evolves, like.entryPa.trans entryPa, like.guestLen.trans guestLen,
    like.stamp.trans stamp, ?_⟩
  rw [like.host, host]

theorem Cache.Within.backed (inside : Cache.Within cache cache')
    (backed : ∀ block ∈ cache.installed, block.Backed ram cache.frames cache.arena) (framed : ram.Framed cache.frames) :
    ∀ block ∈ cache'.installed, block.Backed ram cache'.frames cache'.arena := by
  intro block member
  obtain ⟨old, there, like⟩ := inside.installed block member
  rw [inside.arena]
  exact (backed old there).within like framed (.alike inside.frames)

theorem Stamp.moved_none {stamp : Stamp} {live : Nat → Nat} :
    stamp.moved? live = none ↔ ∀ page ∈ stamp.pages, live page.frame = page.version := by
  unfold Stamp.moved?
  rw [Option.map_eq_none_iff, List.find?_eq_none]
  simp

theorem Cache.Sound.sheds {gone : List Nat} (sound : cache.Sound ram) (framed : ram.Framed cache.frames)
    (sheds : Cache.Sheds gone cache cache') : cache'.Sound ram :=
  ⟨sound.toOrderly.sheds sheds, sheds.toWithin.backed sound.backed framed⟩

-- What an installed block runs: the code of a body that was scanned from a capture.
structure Block.Built (ram : Ram) (cache : Cache) (block : Block) (code : Array UInt8) (taken : Snapshot)
    (maxInsns : Nat) : Prop where
  held : cache.code block = .ok code
  tracks : taken.Tracks ram cache.frames
  entryPa : block.entryPa = taken.entryPa
  stamp : block.stamp = Compile.stampOf taken (Body.scan taken maxInsns)
  guestLen : block.guestLen = (Body.scan taken maxInsns).guestLen
  filled : (Body.scan taken maxInsns).insns ≠ []
  laid : ∃ poll interval, Compile.Laid code poll interval (Body.scan taken maxInsns)

theorem Cache.Sound.built {block : Block} (sound : cache.Sound ram) (member : block ∈ cache.installed) :
    ∃ code taken maxInsns, block.Built ram cache code taken maxInsns := by
  obtain ⟨code, ⟨taken, poll, interval, maxInsns, tracks, compiled⟩, entryPa, guestLen, stamp, host⟩ := sound.backed block member
  have whole := sound.whole block.host (List.mem_map.mpr ⟨block, List.mem_append_left _ member, rfl⟩)
  have room := sound.room.1
  have inside := whole.inside
  have held : cache.code block = .ok code.code := by
    unfold Cache.code Arena.code
    rw [if_pos ⟨Nat.le_add_right .., by omega⟩, host]
  rcases Compile.compile_laid poll interval maxInsns taken with ⟨filled, other, same, entry, stampOf, length, laid⟩ | empty
  · rw [compiled] at same
    cases same
    exact ⟨code.code, taken, maxInsns, held, tracks, entryPa.trans entry, stamp.trans stampOf, guestLen.trans length, filled,
      poll, interval, laid⟩
  · rw [compiled] at empty
    cases empty

theorem Block.Built.second {block : Block} {host : Array UInt8} {taken : Snapshot} {maxInsns : Nat} {page : FrameVersion}
    (built : block.Built ram cache host taken maxInsns) (stamped : block.stamp.second = some page) :
    taken.stamp.second = some page := by
  rw [built.stamp] at stamped
  unfold Compile.stampOf at stamped
  dsimp only at stamped
  split at stamped
  · exact stamped
  · cases stamped

theorem Cache.Sound.second_covered {block : Block} (sound : cache.Sound ram) (framed : ram.Framed cache.frames)
    (aligned : ram.base % 4096 = 0) (member : block ∈ cache.installed) (page : FrameVersion)
    (stamped : block.stamp.second = some page) : cache.frames.covers page.frame = true := by
  obtain ⟨code, taken, maxInsns, built⟩ := sound.built member
  have covered := framed.covers_aligned aligned (built.tracks.second page (built.second stamped)).1 Nat.two_pos
  have own : Page.frame (page.frame * 4096) = page.frame := by
    unfold Page.frame
    omega
  rwa [own] at covered

namespace Cache

variable {extent : Extent} {block : Block}

theorem Orderly.readBytes_placed {host : Extent} {need : Nat} (orderly : cache.Orderly) (reserved : cache.Reserved need extent)
    (fits : data.length ≤ extent.size) (occupied : host ∈ cache.hosts) :
    (cache.arena.writeBytes extent.start data).readBytes host.start host.stop =
      cache.arena.readBytes host.start host.stop := by
  have single : ∀ i, cover [host] i + cover [extent] i ≤ 1 := by
    intro i
    have all := reserved.apart i
    have part : cover [host] i ≤ cover cache.hosts i := cover_mem occupied
    omega
  have apart := ExtentPool.apart_of_cover single (orderly.whole _ occupied).nonempty reserved.whole.nonempty
  refine Arena.readBytes_apart ?_
  unfold Extent.stop at apart ⊢
  omega

theorem Sound.placed (sound : cache.Sound ram) (reserved : cache.Reserved data.length extent) :
    Sound ram { cache with arena := cache.arena.writeBytes extent.start data } := by
  refine ⟨⟨sound.keys, sound.invalid, sound.pool, sound.apart, sound.whole, sound.room, sound.live, sound.listed⟩, ?_⟩
  intro other member
  obtain ⟨code, sourced, entryPa, guestLen, stamp, host⟩ := sound.backed other member
  refine ⟨code, sourced, entryPa, guestLen, stamp, ?_⟩
  rw [← host]
  exact sound.readBytes_placed reserved (Nat.le_of_eq reserved.size.symm)
    (List.mem_map.mpr ⟨other, List.mem_append_left _ member, rfl⟩)

theorem entries_register_mem {f g other pa : Nat} (member : other ∈ frames.entries f) :
    other ∈ (frames.register pa g).entries f := by
  rw [FrameTable.entries_register]
  split
  · exact List.mem_append_left _ member
  · exact member

theorem entries_registerAll {f other pa : Nat} (fs : List Nat) (member : other ∈ frames.entries f) :
    other ∈ (fs.foldl (·.register pa ·) frames).entries f := by
  induction fs generalizing frames with
  | nil => exact member
  | cons g rest ih => exact ih (entries_register_mem member)

theorem entries_registered {f pa : Nat} {fs : List Nat} (member : f ∈ fs) (covered : frames.covers f = true) :
    pa ∈ (fs.foldl (·.register pa ·) frames).entries f := by
  induction fs generalizing frames with
  | nil => cases member
  | cons g rest ih =>
    rcases List.mem_cons.mp member with rfl | later
    · refine entries_registerAll rest ?_
      rw [FrameTable.entries_register, if_pos ⟨rfl, covered⟩]
      exact List.mem_append_right _ (List.mem_singleton.mpr rfl)
    · exact ih later (by rw [(FrameTable.Alike.register pa g).covers]; exact covered)

theorem enter_members {other : Block} (member : other ∈ (cache.enter block).installed) :
    other.Like block ∨ other ∈ cache.installed := by
  rcases List.mem_cons.mp member with rfl | old
  · exact .inl ⟨rfl, rfl, rfl, rfl⟩
  · exact .inr old

theorem enter_alike (cache : Cache) (block : Block) : cache.frames.Alike (cache.enter block).frames :=
  .foldl (fun _ f => .register block.entryPa f) _

theorem Orderly.enter (orderly : cache.Orderly) (fresh : cache.contains block.entryPa = false)
    (live : block.stamp.moved? cache.frames.version = none) {need : Nat} (reserved : cache.Reserved need block.host) :
    (cache.enter block).Orderly := by
  have alike := enter_alike cache block
  unfold contains find? at fresh
  rw [Option.isSome_eq_false_iff, Option.isNone_iff_eq_none, List.find?_eq_none] at fresh
  rw [Stamp.moved_none] at live
  refine ⟨?_, orderly.invalid, orderly.pool, ?_, ?_, orderly.room, ?_, ?_⟩
  · refine List.nodup_cons.mpr ⟨?_, orderly.keys⟩
    intro there
    obtain ⟨other, member, same⟩ := List.mem_map.mp there
    exact fresh other member (by simpa using same)
  · intro i
    have all := reserved.apart i
    show cover cache.extents.free i + cover (block.host :: cache.hosts) i ≤ 1
    rw [ExtentPool.cover_cons]
    omega
  · intro host member
    rcases List.mem_cons.mp (show host ∈ block.host :: cache.hosts from member) with rfl | old
    · exact reserved.whole
    · exact orderly.whole host old
  · intro other member page stamped
    rw [alike.version]
    rcases enter_members member with like | old
    · exact live page (like.stamp ▸ stamped)
    · exact orderly.live other old page stamped
  · intro other member page stamped covered
    rw [alike.covers] at covered
    rcases enter_members member with like | old
    · rw [like.entryPa]
      exact entries_registered (List.mem_map.mpr ⟨page, like.stamp ▸ stamped, rfl⟩) covered
    · exact entries_registerAll _ (orderly.listed other old page stamped covered)

theorem Sound.enter (sound : cache.Sound ram) (framed : ram.Framed cache.frames)
    (fresh : cache.contains block.entryPa = false)
    (live : block.stamp.moved? cache.frames.version = none) {need : Nat} (reserved : cache.Reserved need block.host)
    (backed : block.Backed ram cache.frames cache.arena) : (cache.enter block).Sound ram := by
  have evolves : Evolves ram cache.frames ram (cache.enter block).frames := .alike (enter_alike cache block)
  refine ⟨sound.toOrderly.enter fresh live reserved, ?_⟩
  intro other member
  rcases enter_members member with like | old
  · exact backed.within like framed evolves
  · exact (sound.backed other old).within (.refl other) framed evolves

theorem ends_placeCode {good : Unit → Cache → Prop} {bad : Failure → Cache → Prop} (orderly : cache.Orderly)
    {need : Nat} (reserved : cache.Reserved need extent) (fits : data.length ≤ extent.size) :
    Ends (placeCode extent data) cache good bad ↔
      good () { cache with arena := cache.arena.writeBytes extent.start data } := by
  have room := orderly.room
  have inside := reserved.whole.inside
  unfold Extent.stop at inside
  unfold placeCode
  rw [if_neg (by omega), ends_bind, ends_get, ends_bind, Arena.write_ok (by omega) room.2, ends_ofExcept_ok, ends_modify]

theorem ends_install {good : Unit → Cache → Prop} {bad : Failure → Cache → Prop}
    (live : block.stamp.moved? cache.frames.version = none) (fresh : cache.contains block.entryPa = false) :
    Ends (install block) cache good bad ↔ good () (cache.enter block) := by
  unfold install
  rw [ends_bind, ends_get]
  simp only [live, fresh]
  exact Iff.rfl

-- Publishing never fails: it refuses, or it enters a block on an extent of its own.
theorem ends_publish {good : Except Refusal Block → Cache → Prop} (orderly : cache.Orderly)
    (small : max code.code.size 1 + 16 < hostLimit)
    (unchanged : ∀ refusal, good (.error refusal) cache)
    (refused : ∀ refusal after, after.Orderly → Within cache after → good (.error refusal) after)
    (entered : ∀ middle extent need, middle.Orderly → Within cache middle → ExtentPool.rounded code.code.size = .ok need →
      middle.Reserved need extent → code.stamp.moved? middle.frames.version = none →
      middle.contains code.entryPa = false → ∀ given, good (.ok given) (enter
        { middle with
          arena := middle.arena.writeBytes extent.start code.code.toList, nextId := middle.nextId + 1 }
        (blockOf code extent middle.nextId))) :
    Ends (publish code) cache good fun _ _ => False := by
  unfold publish
  rw [ends_bind, ends_get]
  cases moved : code.stamp.moved? cache.frames.version with
  | some frame => exact unchanged _
  | none =>
    dsimp only
    by_cases there : cache.contains code.entryPa = true
    · rw [if_pos there]
      exact unchanged _
    rw [if_neg there, ends_bind]
    refine (reserve_reserved orderly).mono ?_ fun _ _ large => absurd large (by omega)
    rintro answer middle ⟨orderly', inside, given⟩
    cases answer with
    | error refusal => exact refused refusal middle orderly' inside
    | ok extent =>
      obtain ⟨need, rounded, reserved⟩ := given extent rfl
      have units := ExtentPool.rounded_units rounded
      have fits : code.code.toList.length ≤ extent.size := by
        rw [reserved.size, Array.length_toList]
        omega
      have fresh : middle.contains code.entryPa = false := inside.contains (by simpa using there)
      have live : code.stamp.moved? middle.frames.version = none := by
        rw [Stamp.moved_none] at moved ⊢
        exact fun page stamped => (inside.frames.version _).trans (moved page stamped)
      dsimp only
      rw [ends_bind, ends_placeCode orderly' reserved fits, ends_bind]
      unfold newBlock
      rw [ends_modifyGet, ends_bind, ends_install live fresh]
      exact entered middle extent need orderly' inside rounded reserved live fresh _

theorem publish_sound (sound : cache.Sound ram) (framed : ram.Framed cache.frames)
    (sourced : code.Sourced ram cache.frames) :
    Ends (publish code) cache (fun _ after => after.Sound ram ∧ cache.frames.Alike after.frames) fun _ _ => False := by
  have size := sourced.compiled.size
  refine ends_publish sound.toOrderly sourced.compiled.small (fun _ => ⟨sound, .refl _⟩) ?_ ?_
  · intro refusal after orderly inside
    exact ⟨⟨orderly, inside.backed sound.backed framed⟩, inside.frames⟩
  · intro middle extent need orderly inside rounded reserved live fresh given
    have units := ExtentPool.rounded_units rounded
    have whole : need = code.code.toList.length := by
      rw [Array.length_toList]
      omega
    subst whole
    have kept : middle.Sound ram := ⟨orderly, inside.backed sound.backed framed⟩
    have framed' : ram.Framed middle.frames := framed.alike inside.frames
    have placed := kept.placed reserved
    refine ⟨Sound.enter (placed.sheds framed' (.same rfl rfl rfl rfl rfl)) framed' fresh live
      ⟨reserved.whole, reserved.size, reserved.apart⟩ ?_,
      inside.frames.trans (.foldl (fun frames f => .register code.entryPa f) _)⟩
    refine ⟨code, sourced.evolves framed (.alike inside.frames), rfl, rfl, rfl, ?_⟩
    refine (Arena.readBytes_written ?_).trans Array.toArray_toList
    show extent.start + extent.size = _
    rw [reserved.size]

end Cache
end TieredHart
