import Goshkik.Memory.KheapNodes

/-!
# The accesses of a growth

What is known of memory at each access of a growth that is not interrupted, and that the chain stays
as it is until the last access links the new block.
-/

namespace Goshkik

open KheapPoint

theorem totalSize_whole (size : ℕ) : totalSize size / pageSizeVmm * pageSizeVmm =
    totalSize size := by
  have rounded := @and_highMask ((size + sizeofBlockHeader + (pageSizeVmm - 1)) % 2 ^ 64)
    (Nat.mod_lt _ (by decide)) 12 (by decide)
  have whole : totalSize size =
      (size + sizeofBlockHeader + (pageSizeVmm - 1)) % 2 ^ 64 / 2 ^ 12 * 2 ^ 12 := rounded
  rw [whole]
  exact congrArg (· * pageSizeVmm) (Nat.mul_div_cancel _ (by decide))

/-- The frames suffice for what is left of a growth. -/
def KheapPoint.Supplied : KheapPoint → Prop
  | growBase total _ frames => total / pageSizeVmm ≤ frames.length
  | growPage _ _ _ _ count frames => count ≤ frames.length
  | _ => True

namespace Kheap

/-- At an access of a growth behind the last header. -/
def GrowAt (stop size last : ℕ) (mid : Kheap) : KheapPoint → Prop
  | growBase total found frames => total = totalSize size ∧ found = some last ∧
      mid.heapCurrent = stop ∧ mid.FreshFrames frames ∧ stop + frames.length * pageSizeVmm < 2 ^ 64
  | growPage total found base address count frames => total = totalSize size ∧ found = some last ∧
      base = stop ∧ mid.heapCurrent = stop ∧ mid.FreshFrames frames ∧
      address + frames.length * pageSizeVmm < 2 ^ 64 ∧ pageSizeVmm ∣ address ∧ stop ≤ address ∧
      mid.Mapped heapStart address ∧ address + count * pageSizeVmm = stop + totalSize size ∧
        0 < count
  | growCurrent total found base => total = totalSize size ∧ found = some last ∧ base = stop ∧
      mid.heapCurrent = stop ∧ stop + totalSize size < 2 ^ 64 ∧
      mid.Mapped heapStart (stop + totalSize size)
  | growSize total found base => total = totalSize size ∧ found = some last ∧ base = stop ∧
      mid.heapCurrent = stop + totalSize size ∧ stop + totalSize size < 2 ^ 64 ∧
      mid.Mapped heapStart (stop + totalSize size)
  | growFree found base => found = some last ∧ base = stop ∧
      mid.heapCurrent = stop + totalSize size ∧ stop + totalSize size < 2 ^ 64 ∧
      mid.Mapped heapStart (stop + totalSize size) ∧ (mid.pages (pageOf stop)).isSome ∧
      mid.view (blockSizeField stop) = (totalSize size + 2 ^ 64 - sizeofBlockHeader) % 2 ^ 64
  | growNext found base => found = some last ∧ base = stop ∧
      mid.heapCurrent = stop + totalSize size ∧ stop + totalSize size < 2 ^ 64 ∧
      mid.Mapped heapStart (stop + totalSize size) ∧ (mid.pages (pageOf stop)).isSome ∧
      mid.view (blockSizeField stop) = (totalSize size + 2 ^ 64 - sizeofBlockHeader) % 2 ^ 64 ∧
      mid.view (blockFreeField stop) = 0
  | growLink found base => found = some last ∧ base = stop ∧
      mid.heapCurrent = stop + totalSize size ∧ stop + totalSize size < 2 ^ 64 ∧
      mid.Mapped heapStart (stop + totalSize size) ∧ (mid.pages (pageOf stop)).isSome ∧
      mid.view (blockSizeField stop) = (totalSize size + 2 ^ 64 - sizeofBlockHeader) % 2 ^ 64 ∧
      mid.view (blockFreeField stop) = 0 ∧ mid.view (blockNextField stop) = 0
  | _ => False

variable {mid mid' : Kheap} {stop size last address frame cell word : ℕ} {nodes frames : List ℕ}
  {known : Set ℕ} {headers : Headers} {point point' : KheapPoint}

theorem FreshFrames.map (fresh : mid.FreshFrames (frame :: frames)) :
    (mid.map address frame).FreshFrames frames where
  nodup := (List.nodup_cons.mp fresh.nodup).2
  nonnull isMember := fresh.nonnull (List.mem_cons_of_mem _ isMember)
  aligned other isMember := fresh.aligned other (List.mem_cons_of_mem _ isMember)
  unused other isMember page := by
    show Function.update mid.pages (pageOf address) (some frame) page ≠ some other
    by_cases here : page = pageOf address
    · rw [here, Function.update_self]
      rintro same
      cases same
      exact (List.nodup_cons.mp fresh.nodup).1 isMember
    · rw [Function.update_of_ne here]
      exact fresh.unused other (List.mem_cons_of_mem _ isMember) page

/-- Mapping a page behind the headers. -/
theorem HasHeaders.map (has : mid.HasHeaders heapStart stop known headers)
    (fresh : mid.FreshFrames (frame :: frames)) (aligned : pageSizeVmm ∣ address)
    (above : stop ≤ address)
    (room : address + pageSizeVmm < 2 ^ 64) (mapped : mid.Mapped heapStart address) :
    (mid.map address frame).HasHeaders heapStart stop known headers ∧
      (mid.map address frame).Mapped heapStart (address + pageSizeVmm) := by
  have small : address < 2 ^ 64 := by omega
  have single : address + [frame].length * pageSizeVmm ≤ 2 ^ 64 := by
    rw [List.length_singleton, Nat.one_mul]
    exact Nat.le_of_lt room
  have mappedOn : (mid.map address frame).Mapped heapStart (address + pageSizeVmm) := by
    have more := mapped.mapOnto aligned small single
    rwa [List.length_singleton, Nat.one_mul] at more
  have below : ∀ cell, cell < stop → (mid.map address frame).view cell = mid.view cell :=
    fun cell lower => view_mapOnto small aligned single (by omega)
  refine ⟨⟨has.separate.mapOnto small fresh 1, ?_, has.inside, has.apart, ?_, ?_, ?_⟩, mappedOn⟩
  · exact fun cell lower upper => mappedOn cell lower (by omega)
  all_goals
    intro node mem
    have inside := (has.inside node mem).2
    simp only [sizeofBlockHeader] at inside
  · rw [below _ (by simp only [blockSizeField]; omega)]
    exact has.size node mem
  · rw [below _ (by simp only [blockFreeField]; omega)]
    exact has.free node mem
  · rw [Cells.pointerAt, below _ (by simp only [blockNextField]; omega)]
    exact has.next node mem

theorem isSome_of_store (stored : mid.store cell word = some mid') :
    (mid.pages (pageOf cell)).isSome := by
  unfold store physical at stored
  cases found : mid.pages (pageOf cell) with
  | none => simp [found] at stored
  | some frame => rfl

/-- Writing behind the headers. -/
theorem HasHeaders.store_behind (has : mid.HasHeaders heapStart stop known headers)
    (above : stop ≤ cell)
    (isMapped : (mid.pages (pageOf cell)).isSome) : ∃ after, mid.store cell word = some after ∧
      after.view = mid.view.store cell word ∧ mid.SameMaps after ∧
      after.HasHeaders heapStart stop known headers := by
  rcases store_eq has.separate isMapped word with ⟨after, stored, viewEq, pages, current, list⟩
  refine ⟨after, stored, viewEq, ⟨pages, current, list⟩, has.congr ⟨pages, current, list⟩ ?_⟩
  intro node mem address _ upper
  have inside := (has.inside node mem).2
  rw [viewEq, Cells.store_of_ne (by omega)]

theorem SameMaps.mapped {start : ℕ} (same : mid.SameMaps mid') (mapped : mid.Mapped start stop) :
    mid'.Mapped start stop := by
  intro address lower upper
  rw [same.pages]
  exact mapped address lower upper

theorem GrowAt.pages {count : ℕ} (current : mid.heapCurrent = stop) (fresh : mid.FreshFrames frames)
    (room : address + frames.length * pageSizeVmm < 2 ^ 64) (aligned : pageSizeVmm ∣ address)
    (above : stop ≤ address) (mapped : mid.Mapped heapStart address)
    (ends : address + count * pageSizeVmm = stop + totalSize size) :
    GrowAt stop size last mid
      (growPages (totalSize size) (some last) stop address count frames) := by
  unfold growPages
  split
  case isTrue finished =>
    rw [finished, Nat.zero_mul, Nat.add_zero] at ends
    refine ⟨rfl, rfl, rfl, current, by omega, ?_⟩
    rwa [← ends]
  case isFalse more =>
    exact ⟨rfl, rfl, rfl, current, fresh, room, aligned, above, mapped, ends,
      Nat.pos_of_ne_zero more⟩

/-- Every access but the last one leaves the chain alone and leads on in the growth. -/
theorem GrowAt.step (has : mid.HasHeaders heapStart stop known headers)
    (aligned : pageSizeVmm ∣ stop)
    (here : GrowAt stop size last mid point) (accessed : mid.access point = some (mid', point')) :
    (mid'.HasHeaders heapStart stop known headers ∧ mid'.freeList = mid.freeList ∧
      GrowAt stop size last mid' point') ∨ ∃ pointer, point' = returned pointer := by
  cases point with
  | growBase total found frames =>
      rcases here with ⟨rfl, rfl, current, fresh, room⟩
      cases accessed
      rw [current]
      left
      refine ⟨has, rfl, .pages current fresh room aligned (Nat.le_refl stop) has.mapped ?_⟩
      rw [totalSize_whole]
  | growPage total found base address count frames =>
      rcases here with ⟨rfl, rfl, rfl, current, fresh, room, alignedHere, above, mapped, ends,
        positive⟩
      cases frames with
      | nil =>
          cases accessed
          exact .inr ⟨none, rfl⟩
      | cons frame frames =>
          rw [List.length_cons, Nat.succ_mul] at room
          have next : address + pageSizeVmm < 2 ^ 64 := by omega
          rcases has.map fresh alignedHere above next mapped with ⟨mapHas, mappedOn⟩
          cases accessed
          rw [Nat.mod_eq_of_lt next]
          left
          refine ⟨mapHas, rfl, .pages current fresh.map (by omega)
            (Nat.dvd_add alignedHere (Nat.dvd_refl pageSizeVmm)) (by omega) mappedOn ?_⟩
          rw [← ends]
          obtain ⟨less, rfl⟩ : ∃ less, count = less + 1 := ⟨count - 1, by omega⟩
          rw [Nat.add_sub_cancel, Nat.succ_mul]
          omega
  | growCurrent total found base =>
      rcases here with ⟨rfl, rfl, rfl, current, room, mapped⟩
      cases accessed
      left
      refine ⟨⟨⟨has.separate.aligned, has.separate.injective⟩, has.mapped, has.inside, has.apart,
        has.size,
        has.free, has.next⟩, rfl, rfl, rfl, rfl, ?_, room, mapped⟩
      show (mid.heapCurrent + totalSize size) % 2 ^ 64 = base + totalSize size
      rw [current, Nat.mod_eq_of_lt room]
  | growSize total found base =>
      rcases here with ⟨rfl, rfl, rfl, current, room, mapped⟩
      simp only [access, Option.bind_eq_bind, Option.bind_eq_some_iff] at accessed
      rcases accessed with ⟨middle, stored, done⟩
      cases done
      have isMapped : (mid.pages (pageOf base)).isSome := isSome_of_store stored
      rcases has.store_behind (show base ≤ blockSizeField base from Nat.le_refl base)
        (isSome_of_store stored) with ⟨after, again, viewEq, same, afterHas⟩
      cases stored.symm.trans again
      left
      refine ⟨afterHas, same.freeList, rfl, rfl, same.heapCurrent.trans current, room,
        same.mapped mapped,
        ?_, ?_⟩
      · rw [same.pages]
        exact isMapped
      · rw [viewEq, Cells.store_self]
  | growFree found base =>
      rcases here with ⟨rfl, rfl, current, room, mapped, isMapped, sizeEq⟩
      simp only [access, Option.bind_eq_bind, Option.bind_eq_some_iff] at accessed
      rcases accessed with ⟨middle, stored, done⟩
      cases done
      rcases has.store_behind (show base ≤ blockFreeField base by simp [blockFreeField])
        (isSome_of_store stored) with ⟨after, again, viewEq, same, afterHas⟩
      cases stored.symm.trans again
      left
      refine ⟨afterHas, same.freeList, rfl, rfl, same.heapCurrent.trans current, room,
        same.mapped mapped,
        ?_, ?_, ?_⟩
      · rw [same.pages]
        exact isMapped
      · rw [viewEq, Cells.store_of_ne (by simp [blockSizeField, blockFreeField]), sizeEq]
      · rw [viewEq, Cells.store_self]
  | growNext found base =>
      rcases here with ⟨rfl, rfl, current, room, mapped, isMapped, sizeEq, freeEq⟩
      simp only [access, Option.bind_eq_bind, Option.bind_eq_some_iff] at accessed
      rcases accessed with ⟨middle, stored, done⟩
      cases done
      rcases has.store_behind (show base ≤ blockNextField base by simp [blockNextField])
        (isSome_of_store stored) with ⟨after, again, viewEq, same, afterHas⟩
      cases stored.symm.trans again
      left
      refine ⟨afterHas, same.freeList, rfl, rfl, same.heapCurrent.trans current, room,
        same.mapped mapped,
        ?_, ?_, ?_, ?_⟩
      · rw [same.pages]
        exact isMapped
      · rw [viewEq, Cells.store_of_ne (by simp [blockSizeField, blockNextField]), sizeEq]
      · rw [viewEq, Cells.store_of_ne (by simp [blockFreeField, blockNextField]), freeEq]
      · rw [viewEq, Cells.store_self]
  | growLink found base =>
      simp only [access, Option.bind_eq_bind, Option.bind_eq_some_iff] at accessed
      rcases accessed with ⟨_, _, _, _, done⟩
      cases done
      exact .inr ⟨_, rfl⟩
  | _ => exact here.elim

/-! ## The end of a growth -/

/-- Another header in a gap between the others. -/
theorem HasHeaders.insert {stop' node : ℕ} {header : Header}
    (has : mid.HasHeaders heapStart stop known headers)
    (mapped : mid.Mapped heapStart stop') (longer : stop ≤ stop')
    (inside : heapStart ≤ node ∧ node + sizeofBlockHeader ≤ stop')
    (gap : ∀ other ∈ known, other + sizeofBlockHeader ≤ node ∨ node + sizeofBlockHeader ≤ other)
    (size : mid.view (blockSizeField node) = header.size)
    (free : mid.view (blockFreeField node) = header.free.toNat)
    (next : mid.view.pointerAt (blockNextField node) = header.next) :
    mid.HasHeaders heapStart stop' (insert node known) (Function.update headers node header) := by
  have different : ∀ other ∈ known, other ≠ node := by
    rintro other mem rfl
    have apart := gap other mem
    simp only [sizeofBlockHeader] at apart
    omega
  refine ⟨has.separate, mapped, ?_, ?_, ?_, ?_, ?_⟩
  · rintro other (rfl | mem)
    · exact inside
    · have bounds := has.inside other mem
      omega
  · rintro other (rfl | mem) second (rfl | secondMem) before
    · omega
    · have apart := gap second secondMem
      simp only [sizeofBlockHeader] at apart ⊢
      omega
    · have apart := gap other mem
      simp only [sizeofBlockHeader] at apart ⊢
      omega
    · exact has.apart other mem second secondMem before
  · rintro other (rfl | mem)
    · rw [Function.update_self, size]
    · rw [Function.update_of_ne (different other mem), has.size other mem]
  · rintro other (rfl | mem)
    · rw [Function.update_self, free]
    · rw [Function.update_of_ne (different other mem), has.free other mem]
  · rintro other (rfl | mem)
    · rw [Function.update_self, next]
    · rw [Function.update_of_ne (different other mem), has.next other mem]

/-- The headers after a growth. -/
def grownHeaders (headers : Headers) (stop size last : ℕ) : Headers :=
  Headers.resize (Function.update headers stop
    ⟨(totalSize size + 2 ^ 64 - sizeofBlockHeader) % 2 ^ 64, false, none⟩) last (headers last).size
      (some stop)

/-- A growth has linked its block behind the last header. -/
structure Grown (mid : Kheap) (stop size last : ℕ) (known : Set ℕ) (headers : Headers)
    (final : Kheap) :
    Prop where
  freeList : final.freeList = mid.freeList
  heapCurrent : final.heapCurrent = stop + totalSize size
  mapped : final.Mapped heapStart (stop + totalSize size)
  has : final.HasHeaders heapStart (stop + sizeofBlockHeader) (insert stop known)
    (grownHeaders headers stop size last)

/-- From here on a growth links its block. -/
def Grows (stop size last : ℕ) (known : Set ℕ) (headers : Headers) (mid : Kheap)
    (point : KheapPoint) :
    Prop :=
  ∃ final, mid.Finishes point final (some (stop + sizeofBlockHeader)) ∧
    Grown mid stop size last known headers final

theorem pageOf_header {field : ℕ} (aligned : pageSizeVmm ∣ stop) (lower : stop ≤ field)
    (upper : field < stop + sizeofBlockHeader) : pageOf field = pageOf stop := by
  simp only [pageOf, pageSizeVmm, sizeofBlockHeader] at aligned upper ⊢
  omega

/-- What one access of a growth leaves for the rest. -/
theorem GrowAt.grows (has : mid.HasHeaders heapStart stop known headers)
    (aligned : pageSizeVmm ∣ stop)
    (here : GrowAt stop size last mid point) (accessed : mid.access point = some (mid', point'))
    (running : ∀ pointer, point' ≠ returned pointer)
    (rest : mid'.HasHeaders heapStart stop known headers → GrowAt stop size last mid' point' →
      Grows stop size last known headers mid' point') :
        Grows stop size last known headers mid point := by
  rcases here.step has aligned accessed with ⟨after, list, again⟩ | ⟨pointer, ended⟩
  · rcases rest after again with ⟨final, finishes, grown⟩
    exact ⟨final, .step accessed finishes, grown.freeList.trans list, grown.heapCurrent,
      grown.mapped,
      grown.has⟩
  · exact absurd ended (running pointer)

section Grows

variable (above : heapStart ≤ stop) (aligned : pageSizeVmm ∣ stop) (lastKnown : last ∈ known)

include above aligned lastKnown

theorem grows_link (has : mid.HasHeaders heapStart stop known headers)
    (here : GrowAt stop size last mid (growLink (some last) stop)) :
    Grows stop size last known headers mid (growLink (some last) stop) := by
  rcases here with ⟨_, _, current, room, mapped, isMapped, sizeEq, freeEq, nextEq⟩
  have small : stop + sizeofBlockHeader < 2 ^ 64 := by
    simp only [pageSizeVmm, sizeofBlockHeader] at aligned ⊢
    omega
  have mappedHeader : mid.Mapped heapStart (stop + sizeofBlockHeader) := by
    intro address lower upper
    by_cases below : address < stop
    · exact has.mapped address lower below
    · rw [pageOf_header aligned (by omega) upper]
      exact isMapped
  have withNew : mid.HasHeaders heapStart (stop + sizeofBlockHeader) (insert stop known)
      (Function.update headers stop
        ⟨(totalSize size + 2 ^ 64 - sizeofBlockHeader) % 2 ^ 64, false, none⟩) := by
    refine has.insert mappedHeader (by omega) ⟨above, Nat.le_refl _⟩
      (fun other mem => .inl (has.inside other mem).2) sizeEq freeEq ?_
    rw [Cells.pointerAt, nextEq]
    rfl
  have nonzero : some stop ≠ some 0 := by
    rintro same
    cases same
    simp [heapStart] at above
  rcases withNew.store_next (Set.mem_insert_of_mem _ lastKnown) nonzero with
    ⟨final, stored, _, same, finalHas⟩
  have different : last ≠ stop := by
    rintro rfl
    have inside := (has.inside last lastKnown).2
    simp only [sizeofBlockHeader] at inside
    omega
  refine ⟨final, ?_, same.freeList, same.heapCurrent.trans current, same.mapped mapped, ?_⟩
  · have link : mid.access (growLink (some last) stop) =
        some (final, .returned (some (stop + sizeofBlockHeader))) := by
      have wordEq : (stop + sizeofBlockHeader + 2 ^ 64 - sizeofBlockHeader) % 2 ^ 64 =
        stop := by omega
      have linked : mid.store (blockNextField last) stop = some final := stored
      simp only [access, Nat.mod_eq_of_lt small, wordEq, Option.bind_eq_bind, Option.bind_some,
        linked]
      rfl
    exact .step link (.returned _ _)
  · rw [Function.update_of_ne different] at finalHas
    exact finalHas

theorem grows_next (has : mid.HasHeaders heapStart stop known headers)
    (here : GrowAt stop size last mid (growNext (some last) stop)) :
    Grows stop size last known headers mid (growNext (some last) stop) := by
  have isMapped : (mid.pages (pageOf (blockNextField stop))).isSome := by
    rw [pageOf_header aligned (by simp [blockNextField])
      (by simp [blockNextField, sizeofBlockHeader])]
    exact here.2.2.2.2.2.1
  rcases @HasHeaders.store_behind _ _ _ 0 _ _ has (by simp [blockNextField]) isMapped with
    ⟨after, stored, _, _, _⟩
  have accessed : mid.access (growNext (some last) stop) =
      some (after, growLink (some last) stop) := by
    rw [access, stored]
    rfl
  exact here.grows has aligned accessed (by simp) (grows_link above aligned lastKnown)

theorem grows_free (has : mid.HasHeaders heapStart stop known headers)
    (here : GrowAt stop size last mid (growFree (some last) stop)) :
    Grows stop size last known headers mid (growFree (some last) stop) := by
  have isMapped : (mid.pages (pageOf (blockFreeField stop))).isSome := by
    rw [pageOf_header aligned (by simp [blockFreeField])
      (by simp [blockFreeField, sizeofBlockHeader])]
    exact here.2.2.2.2.2.1
  rcases @HasHeaders.store_behind _ _ _ 0 _ _ has (by simp [blockFreeField]) isMapped with
    ⟨after, stored, _, _, _⟩
  have accessed : mid.access (growFree (some last) stop) =
      some (after, growNext (some last) stop) := by
    rw [access, stored]
    rfl
  exact here.grows has aligned accessed (by simp) (grows_next above aligned lastKnown)

theorem grows_size (backed : 0 < totalSize size ∨ (mid.pages (pageOf stop)).isSome)
    (has : mid.HasHeaders heapStart stop known headers)
    (here : GrowAt stop size last mid (growSize (totalSize size) (some last) stop)) :
    Grows stop size last known headers mid (growSize (totalSize size) (some last) stop) := by
  have isMapped : (mid.pages (pageOf stop)).isSome := by
    rcases backed with positive | isMapped
    · exact here.2.2.2.2.2 stop above (by omega)
    · exact isMapped
  rcases @HasHeaders.store_behind _ _ (blockSizeField stop)
      ((totalSize size + 2 ^ 64 - sizeofBlockHeader) % 2 ^ 64) _ _ has (Nat.le_refl stop)
        isMapped with
    ⟨after, stored, _, _, _⟩
  have accessed : mid.access (growSize (totalSize size) (some last) stop) =
      some (after, growFree (some last) stop) := by
    rw [access, stored]
    rfl
  exact here.grows has aligned accessed (by simp) (grows_free above aligned lastKnown)

theorem grows_current (backed : 0 < totalSize size ∨ (mid.pages (pageOf stop)).isSome)
    (has : mid.HasHeaders heapStart stop known headers)
    (here : GrowAt stop size last mid (growCurrent (totalSize size) (some last) stop)) :
    Grows stop size last known headers mid (growCurrent (totalSize size) (some last) stop) := by
  have accessed : mid.access (growCurrent (totalSize size) (some last) stop) =
      some ({ mid with heapCurrent := (mid.heapCurrent + totalSize size) % 2 ^ 64 },
        growSize (totalSize size) (some last) stop) := rfl
  refine here.grows has aligned accessed (by simp) (grows_size above aligned lastKnown ?_)
  exact backed

theorem grows_pages {count : ℕ} (backed : 0 < totalSize size ∨ (mid.pages (pageOf stop)).isSome)
    (has : mid.HasHeaders heapStart stop known headers)
    (here : GrowAt stop size last mid
      (growPages (totalSize size) (some last) stop address count frames))
    (supplied : count ≤ frames.length) :
    Grows stop size last known headers mid
      (growPages (totalSize size) (some last) stop address count frames) := by
  induction frames generalizing mid address count with
  | nil =>
      rw [growPages, if_pos (Nat.le_zero.mp supplied)] at here ⊢
      exact grows_current above aligned lastKnown backed has here
  | cons frame frames ih =>
      by_cases finished : count = 0
      · rw [growPages, if_pos finished] at here ⊢
        exact grows_current above aligned lastKnown backed has here
      · rw [growPages, if_neg finished] at here ⊢
        have stillBacked : 0 < totalSize size ∨
            ((mid.map address frame).pages (pageOf stop)).isSome := by
          refine backed.imp_right (fun isMapped => ?_)
          show (Function.update mid.pages (pageOf address) (some frame) (pageOf stop)).isSome
          by_cases same : pageOf stop = pageOf address
          · rw [same, Function.update_self]
            rfl
          · rw [Function.update_of_ne same]
            exact isMapped
        have running : ∀ pointer, growPages (totalSize size) (some last) stop
            ((address + pageSizeVmm) % 2 ^ 64) (count - 1) frames ≠ returned pointer := by
          intro pointer
          unfold growPages
          split <;> simp
        exact here.grows has aligned rfl running (fun after again => ih stillBacked after again (by
          simp only [List.length_cons] at supplied
          omega))

end Grows

/-- A growth with enough frames, and with a page for the new header, comes to its end. -/
theorem GrowAt.finishes (has : mid.HasHeaders heapStart stop known headers)
    (above : heapStart ≤ stop)
    (aligned : pageSizeVmm ∣ stop) (lastKnown : last ∈ known)
    (backed : 0 < totalSize size ∨ (mid.pages (pageOf stop)).isSome)
    (here : GrowAt stop size last mid point) (supplied : point.Supplied) :
    Grows stop size last known headers mid point := by
  cases point with
  | growBase total found frames =>
      rcases here with ⟨rfl, rfl, current, fresh, room⟩
      have running : ∀ pointer,
        growPages (totalSize size) (some last) mid.heapCurrent mid.heapCurrent
          (totalSize size / pageSizeVmm) frames ≠ returned pointer := by
        intro pointer
        unfold growPages
        split <;> simp
      refine GrowAt.grows has aligned ⟨rfl, rfl, current, fresh, room⟩ rfl running ?_
      rw [current]
      exact fun after again => grows_pages above aligned lastKnown backed after again supplied
  | growPage total found base address count frames =>
      have same := here
      rcases here with ⟨rfl, rfl, rfl, _, _, _, _, _, _, _, positive⟩
      have isPages : growPages (totalSize size) (some last) base address count frames =
          growPage (totalSize size) (some last) base address count frames :=
        if_neg (Nat.ne_of_gt positive)
      rw [← isPages] at same ⊢
      exact grows_pages above aligned lastKnown backed has same supplied
  | growCurrent total found base =>
      have same := here
      rcases here with ⟨rfl, rfl, rfl, _⟩
      exact grows_current above aligned lastKnown backed has same
  | growSize total found base =>
      have same := here
      rcases here with ⟨rfl, rfl, rfl, _⟩
      exact grows_size above aligned lastKnown backed has same
  | growFree found base =>
      have same := here
      rcases here with ⟨rfl, rfl, _⟩
      exact grows_free above aligned lastKnown has same
  | growNext found base =>
      have same := here
      rcases here with ⟨rfl, rfl, _⟩
      exact grows_next above aligned lastKnown has same
  | growLink found base =>
      have same := here
      rcases here with ⟨rfl, rfl, _⟩
      exact grows_link above aligned lastKnown has same
  | _ => exact here.elim

/-- A growth that runs out of frames leaves the chain alone. -/
theorem GrowAt.breaksOff (has : mid.HasHeaders heapStart stop known headers)
    (aligned : pageSizeVmm ∣ stop)
    (here : GrowAt stop size last mid point) (short : ¬ point.Supplied) :
    ∃ final, mid.Finishes point final none ∧ final.freeList = mid.freeList ∧
      final.heapCurrent = stop ∧
      final.HasHeaders heapStart stop known headers := by
  have pages : ∀ (frames : List ℕ) (mid : Kheap) (address count : ℕ),
      mid.HasHeaders heapStart stop known headers →
      GrowAt stop size last mid (growPages (totalSize size) (some last) stop address count frames) →
      frames.length < count →
      ∃ final, mid.Finishes (growPages (totalSize size) (some last) stop address count frames) final
        none ∧
        final.freeList = mid.freeList ∧ final.heapCurrent = stop ∧
        final.HasHeaders heapStart stop known headers := by
    intro frames
    induction frames with
    | nil =>
        intro mid address count has here short
        rw [growPages, if_neg (by simpa using Nat.ne_of_gt short)] at here ⊢
        exact ⟨mid, .step rfl (.returned _ _), rfl, here.2.2.2.1, has⟩
    | cons frame frames ih =>
        intro mid address count has here short
        rw [List.length_cons] at short
        rw [growPages, if_neg (by omega)] at here ⊢
        rcases here.step has aligned rfl with ⟨after, _, again⟩ | ⟨pointer, ended⟩
        · rcases ih _ _ _ after again (by omega) with ⟨final, finishes, list, current, finalHas⟩
          exact ⟨final, .step rfl finishes, list, current, finalHas⟩
        · unfold growPages at ended
          split at ended <;> cases ended
  cases point with
  | growBase total found frames =>
      rcases here with ⟨rfl, rfl, current, fresh, room⟩
      have here : GrowAt stop size last mid (growBase (totalSize size) (some last) frames) :=
        ⟨rfl, rfl, current, fresh, room⟩
      rcases here.step has aligned rfl with ⟨after, _, again⟩ | ⟨pointer, ended⟩
      · rw [current] at again
        rcases pages _ _ _ _ after again (Nat.lt_of_not_le short) with ⟨final, finishes, rest⟩
        refine ⟨final, .step rfl ?_, rest⟩
        rw [current]
        exact finishes
      · unfold growPages at ended
        split at ended <;> cases ended
  | growPage total found base address count frames =>
      have same := here
      rcases here with ⟨rfl, rfl, rfl, _, _, _, _, _, _, _, positive⟩
      have isPages : growPages (totalSize size) (some last) base address count frames =
          growPage (totalSize size) (some last) base address count frames :=
        if_neg (Nat.ne_of_gt positive)
      rw [← isPages] at same ⊢
      exact pages _ _ _ _ has same (Nat.lt_of_not_le short)
  | _ => exact absurd trivial short

end Kheap

end Goshkik
