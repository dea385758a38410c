import Goshkik.Scheduling.ReapInvariant

/-!
# Reaping exactly once

As long as a call that finds its child over is the only one under way on this child,
its record is freed once and nobody reads it afterwards.  Two calls on a child that is
over both clear its slot and both free it.
-/

namespace Goshkik

namespace ReapSystem

variable {system : ReapSystem} {t : ℕ} {child : ProcessRecord}

namespace Sound

/-! ## One step -/

theorem lookup (sound : system.Sound) {parent pid : ℤ}
    (calls : system.phase t = .calling parent pid)
    (guard : system.CollectsAlone (.lookup t)) : (system.lookup t parent pid).Sound := by
  have scans (slots : ℕ) : (system.record (system.scanned slots)).Sound := by
    apply sound.reads
    intro record mem
    rcases List.mem_filterMap.mp mem with ⟨i, _, isRecord⟩
    exact sound.listed i record isRecord
  unfold ReapSystem.lookup
  split
  · exact (scans maxProcs).letGo trivial rfl
  · rename_i child index finds
    have listed := Kernel.findChild_listed finds
    apply (scans (index + 1)).setPhase
    · exact slotRecord_eq_some.mpr ⟨listed, rfl⟩
    · intro record isCollected
      simp [WaitPhase.collected] at isCollected
    · intro record picked u _ other isCollected
      rw [← Option.some.inj picked]
      exact (guard parent pid child index calls finds u other isCollected).symm
    · intro record picked new mem
      rw [← Option.some.inj picked]
      intro same
      apply (sound.pending new mem).2.2.1 index
      rw [← same]
      exact listed

/-- The thread is the only one that has picked the child. -/
theorem markExited (sound : system.Sound) {index : ℕ} {pid : ℤ}
    (picked : (system.phase t).child = some child) (listed : system.slotRecord index = some child)
    (only : ∀ u, u ≠ t → ∀ other, (system.phase u).child = some other →
      other.block ≠ child.block) : (system.markExited t child index pid).Sound := by
  have marked : (system.setKernel (system.kernel.modifyProcess child.block (fun record =>
      { record with state := .exited }))).Sound :=
    sound.setKernel rfl rfl
  apply (marked.read (sound.live picked)).setPhase
  · exact listed
  · intro record isCollected u different other picks
    rw [← Option.some.inj isCollected]
    exact only u different other picks
  · intro record isChild u different other isCollected
    rw [← Option.some.inj isChild]
    exact (only u different other (WaitPhase.child_of_collected isCollected)).symm
  · intro record isChild new mem
    rw [← Option.some.inj isChild]
    exact (sound.pending new mem).2.2.2 t child picked

theorem check {after : ReapSystem} (sound : system.Sound) {index : ℕ} {pid : ℤ}
    (found : system.phase t = .found child index pid) (unowned : system.owner child.block = none)
    (guard : system.CollectsAlone (.check t))
    (runs : system.check t child index pid = some after) : after.Sound := by
  have picked : (system.phase t).child = some child := by rw [found]; rfl
  have listed : system.slotRecord index = some child := by
    have holds := sound.holds t
    rw [found] at holds
    exact holds
  unfold ReapSystem.check at runs
  split at runs
  · rename_i isOver
    rw [← Option.some.inj runs]
    exact sound.markExited picked listed (guard child index pid found isOver)
  · rcases Option.map_eq_some_iff.mp runs with ⟨queued, enqueues, rfl⟩
    have same := Kernel.SameProcesses.waitEnqueue enqueues
    have stepped : (system.setKernel queued).Sound := sound.setKernel same.table same.blocks
    have taken : ((system.setKernel queued).setOwner child.block (some t)).Sound := by
      apply stepped.setOwner
      intro u record _ _
      change system.owner child.block ≠ some u
      rw [unowned]
      simp
    have live : ((system.setKernel queued).setOwner child.block (some t)).Live child :=
      taken.live picked
    apply (taken.read live).goOn
    · refine ⟨?_, by simp [ReapSystem.record, ReapSystem.setOwner]⟩
      rw [slotRecord_eq_some] at listed ⊢
      simpa [ReapSystem.record, ReapSystem.setOwner, ReapSystem.setKernel, same.table] using listed
    · exact picked.symm
    · rfl

/-- `thread_block`, once the thread is on the wait list. -/
theorem block (sound : system.Sound) {fuel tid index : ℕ} {pid : ℤ} {blocked : Kernel}
    (enqueued : system.phase t = .enqueued child index pid)
    (runs : system.kernel.threadBlock fuel tid = some blocked) :
    ((system.setKernel blocked).setPhase t (.asleep child index pid)).Sound := by
  have same := Kernel.SameProcesses.threadBlock runs
  have stepped : (system.setKernel blocked).Sound := sound.setKernel same.table same.blocks
  have holds : (system.setKernel blocked).Holds t (.enqueued child index pid) := by
    rw [← enqueued]
    exact stepped.holds t
  apply stepped.goOn
  · exact holds
  · change _ = (system.phase t).child
    rw [enqueued]
    rfl
  · rfl

/-- In both modes the section clears the slot of the child and no other. -/
theorem clearReaped_table (sound : system.Sound) {index : ℕ} (pid : ℤ) {p : ℕ}
    (listed : system.kernel.processTable index = some p) :
    (system.kernel.clearReaped p index pid).processTable =
      Function.update system.kernel.processTable index none := by
  unfold Kernel.clearReaped
  split
  · rfl
  · funext i
    by_cases same : i = index
    · subst same
      simp [listed]
    · have other : system.kernel.processTable i ≠ some p :=
        fun isChild => same (sound.single i index p isChild listed)
      simp [same, other]

theorem clearedSlots_eq (sound : system.Sound) {index i : ℕ} {pid : ℤ} {p : ℕ}
    (listed : system.kernel.processTable index = some p)
    (mem : i ∈ system.clearedSlots p index pid) : i = index := by
  unfold clearedSlots at mem
  split at mem
  · exact List.mem_singleton.mp mem
  · exact sound.single i index p (of_decide_eq_true (List.mem_filter.mp mem).2) listed

/-- The slot of a child that no call has picked is cleared. -/
theorem unlist (sound : system.Sound) {index : ℕ} (pid : ℤ)
    (isRecord : system.slotRecord index = some child)
    (unpicked : ∀ t other, (system.phase t).child = some other → other.block ≠ child.block) :
    (system.setKernel (system.kernel.clearReaped child.block index pid)).Sound ∧
      ∀ i, (system.kernel.clearReaped child.block index pid).processTable i ≠ some child.block := by
  have listed := (slotRecord_eq_some.mp isRecord).1
  have table := sound.clearReaped_table pid listed
  generalize isCleared : system.kernel.clearReaped child.block index pid = kernel at table ⊢
  have blocks : kernel.processBlocks = system.kernel.processBlocks := by rw [← isCleared]; rfl
  have tableAt : ∀ i p, kernel.processTable i = some p →
      i ≠ index ∧ system.kernel.processTable i = some p := by
    intro i p isListed
    rw [table] at isListed
    by_cases same : i = index
    · simp [same] at isListed
    · simpa [same] using isListed
  have live : ∀ record, (system.setKernel kernel).Live record ↔ system.Live record := by
    intro record
    simp [Live, ReapSystem.setKernel, blocks]
  refine ⟨⟨?_, ?_, ?_, ?_, sound.alone, ?_, sound.apart, ?_, sound.reaped⟩, ?_⟩
  · simpa [ReapSystem.setKernel, blocks] using sound.blocks
  · intro i record isRecord'
    rw [slotRecord_eq_some] at isRecord'
    rw [live]
    exact sound.listed i record (slotRecord_eq_some.mpr ⟨(tableAt i _ isRecord'.1).2, isRecord'.2⟩)
  · intro i j p first second
    exact sound.single i j p (tableAt i p first).2 (tableAt j p second).2
  · intro t
    apply (sound.holds t).transfer
    · intro i record picked isRecord'
      have different : i ≠ index := by
        rintro rfl
        rw [isRecord, Option.some.injEq] at isRecord'
        exact unpicked t record picked (congrArg ProcessRecord.block isRecord'.symm)
      rw [slotRecord_eq_some] at isRecord' ⊢
      simpa [ReapSystem.setKernel, table, different] using isRecord'
    · exact fun record _ owns => owns
    · exact fun record _ isLive => (live record).mpr isLive
    · exact fun i p isListed => (tableAt i p isListed).2
  · intro new mem
    rcases sound.pending new mem with ⟨isLive, empty, unlisted, notPicked⟩
    refine ⟨(live _).mpr isLive, ?_, ?_, notPicked⟩
    · by_cases same : new.slot = index
      · simp [ReapSystem.setKernel, table, same]
      · simpa [ReapSystem.setKernel, table, same] using empty
    · exact fun i isListed => unlisted i (tableAt i _ isListed).2
  · intro record mem
    rcases sound.freed record mem with ⟨born, dead⟩
    exact ⟨born, fun isLive => dead ((live record).mp isLive)⟩
  · intro i isListed
    rcases tableAt i _ isListed with ⟨different, before⟩
    exact different (sound.single i index _ before listed)

theorem clear (sound : system.Sound) {index : ℕ} {pid : ℤ}
    (ended : system.phase t = .ended child index pid) :
    (system.clear t child index pid).Sound := by
  have picked : (system.phase t).child = some child := by rw [ended]; rfl
  have collected : (system.phase t).collected = some child := by rw [ended]; rfl
  have isRecord : system.slotRecord index = some child := by
    have holds := sound.holds t
    rw [ended] at holds
    exact holds
  have events : (system.clearedSlots child.block index pid).map
      (fun i => ReapEvent.clear i (system.slotRecord i) child) =
        (system.clearedSlots child.block index pid).map
          (fun i => ReapEvent.clear i (some child) child) := by
    apply List.map_congr_left
    intro i mem
    rw [sound.clearedSlots_eq (slotRecord_eq_some.mp isRecord).1 mem, isRecord]
  generalize isSlots : system.clearedSlots child.block index pid = slots at events
  have recorded : (system.record (slots.map (fun i => .clear i (some child) child))).Sound := by
    apply sound.record (sound.reaped.clears slots)
    intro record mem
    simp at mem
  have gone : ((system.record (slots.map (fun i => .clear i (some child) child))).setPhase t
      .idle).Sound :=
    recorded.letGo trivial rfl
  have unpicked : ∀ u other, ((system.setPhase t .idle).phase u).child = some other →
      other.block ≠ child.block := by
    intro u other isChild
    by_cases same : u = t
    · rw [same, setPhase_phase_same] at isChild
      simp [WaitPhase.child] at isChild
    · rw [setPhase_phase_ne _ same] at isChild
      exact sound.alone t child collected u same other isChild
  rcases gone.unlist pid isRecord unpicked with ⟨cleared, unlisted⟩
  have final : (((((system.record (slots.map (fun i => .clear i (some child) child))).setPhase t
      .idle).setKernel (system.kernel.clearReaped child.block index pid)).setPhase t
        (.unlisted child))).Sound := by
    apply cleared.setPhase
    · exact ⟨sound.live picked, unlisted⟩
    · intro record isChild u _ other isPicked
      rw [← Option.some.inj isChild]
      exact unpicked u other isPicked
    · intro record isChild u _ other isCollected
      rw [← Option.some.inj isChild]
      exact (unpicked u other (WaitPhase.child_of_collected isCollected)).symm
    · intro record isChild new mem
      rw [← Option.some.inj isChild]
      exact (sound.pending new mem).2.2.2 t child picked
  have same : system.clear t child index pid =
      ((((system.record (slots.map (fun i => .clear i (some child) child))).setPhase t
        .idle).setKernel (system.kernel.clearReaped child.block index pid)).setPhase t
          (.unlisted child)) := by
    simp [ReapSystem.clear, isSlots, events, ReapSystem.setPhase, ReapSystem.setKernel,
      ReapSystem.record]
  rw [same]
  exact final

/-- A block that nobody refers to any more is freed. -/
theorem release (sound : system.Sound) (live : system.Live child)
    (unlisted : ∀ i, system.kernel.processTable i ≠ some child.block)
    (unpicked : ∀ t record, (system.phase t).child = some record → record.block ≠ child.block)
    (notPending : ∀ new ∈ system.pending, new.process ≠ child.block) {kernel : Kernel}
    (table : kernel.processTable = system.kernel.processTable)
    (blocks : kernel.processBlocks = system.kernel.processBlocks.erase child.block) :
    ((system.setKernel kernel).record [.free child]).Sound := by
  have stays : ∀ record, record.block ≠ child.block → system.Live record →
      ((system.setKernel kernel).record [.free child]).Live record := by
    rintro record different ⟨mem, birth⟩
    refine ⟨?_, birth⟩
    change record.block ∈ kernel.processBlocks
    rw [blocks]
    exact (List.mem_erase_of_ne different).mpr mem
  have was : ∀ record, ((system.setKernel kernel).record [.free child]).Live record →
      system.Live record := by
    rintro record ⟨mem, birth⟩
    refine ⟨?_, birth⟩
    change record.block ∈ kernel.processBlocks at mem
    rw [blocks] at mem
    exact List.mem_of_mem_erase mem
  have slots : ((system.setKernel kernel).record [.free child]).slotRecord = system.slotRecord := by
    funext i
    simp [slotRecord, ReapSystem.record, ReapSystem.setKernel, table]
  refine ⟨?_, ?_, ?_, ?_, sound.alone, ?_, sound.apart, ?_,
    sound.reaped.free (sound.notFreed live)⟩
  · change kernel.processBlocks.Nodup
    rw [blocks]
    exact sound.blocks.erase _
  · intro i record isRecord
    rw [slots] at isRecord
    apply stays record _ (sound.listed i record isRecord)
    intro same
    apply unlisted i
    rw [← same]
    exact (slotRecord_eq_some.mp isRecord).1
  · simpa [ReapSystem.record, ReapSystem.setKernel, table] using sound.single
  · intro t
    apply (sound.holds t).transfer
    · intro index record _ isRecord
      rw [slots]
      exact isRecord
    · exact fun record _ owns => owns
    · exact fun record picked isLive => stays record (unpicked t record picked) isLive
    · simp [ReapSystem.record, ReapSystem.setKernel, table]
  · intro new mem
    rcases sound.pending new mem with ⟨isLive, empty, notListed, notPicked⟩
    refine ⟨stays _ (notPending new mem) isLive, ?_, ?_, notPicked⟩
    · simpa [ReapSystem.record, ReapSystem.setKernel, table] using empty
    · simpa [ReapSystem.record, ReapSystem.setKernel, table] using notListed
  · intro record mem
    rcases List.mem_cons.mp mem with isChild | old
    · rcases ReapEvent.free.inj isChild
      refine ⟨Nat.le_of_eq live.2.symm, fun isLive => ?_⟩
      have stillThere : child.block ∈ kernel.processBlocks := isLive.1
      rw [blocks] at stillThere
      exact sound.blocks.not_mem_erase stillThere
    · rcases sound.freed record old with ⟨born, dead⟩
      exact ⟨born, fun isLive => dead (was record isLive)⟩

theorem free (sound : system.Sound) (phase : system.phase t = .unlisted child) :
    (system.free t child).Sound := by
  have picked : (system.phase t).child = some child := by rw [phase]; rfl
  have collected : (system.phase t).collected = some child := by rw [phase]; rfl
  have live := sound.live picked
  have holds := sound.holds t
  rw [phase] at holds
  have gone : ((system.record [.read child]).setPhase t .idle).Sound :=
    (sound.read live).letGo trivial rfl
  have released : ((((system.record [.read child]).setPhase t .idle).setKernel
      (system.kernel.freeProcess child.block)).record [.free child]).Sound := by
    apply gone.release live holds.2
    · intro u record isChild
      by_cases same : u = t
      · rw [same, setPhase_phase_same] at isChild
        simp [WaitPhase.child] at isChild
      · rw [setPhase_phase_ne _ same] at isChild
        exact sound.alone t child collected u same record isChild
    · exact fun new mem => ((sound.pending new mem).2.2.2 t child picked).symm
    · rfl
    · rfl
  exact released

/-- A block that has not been handed out is taken for a new process. -/
theorem allocate (sound : system.Sound) {block slot : ℕ} (request : ProcessRequest)
    (fresh : block ∉ system.kernel.processBlocks)
    (empty : system.kernel.processTable slot = none) {kernel : Kernel}
    (table : kernel.processTable = system.kernel.processTable)
    (blocks : kernel.processBlocks = block :: system.kernel.processBlocks) :
    Sound { (system.setKernel kernel).setOwner block none with
      births := Function.update system.births block (system.births block + 1)
      pending := ⟨⟨block, slot, request⟩, system.births block + 1⟩ :: system.pending } := by
  generalize isAfter : ({ (system.setKernel kernel).setOwner block none with
    births := Function.update system.births block (system.births block + 1)
    pending := ⟨⟨block, slot, request⟩, system.births block + 1⟩ :: system.pending } :
      ReapSystem) = after
  have others : ∀ record, system.Live record → record.block ≠ block := by
    rintro record ⟨mem, _⟩ rfl
    exact fresh mem
  have kept : ∀ record, record.block ≠ block → (after.Live record ↔ system.Live record) := by
    intro record different
    simp [← isAfter, Live, ReapSystem.setOwner, ReapSystem.setKernel, blocks, different]
  have stays : ∀ record, system.Live record → after.Live record :=
    fun record isLive => (kept record (others record isLive)).mpr isLive
  have slots : after.slotRecord = system.slotRecord := by
    funext i
    simp [← isAfter, slotRecord, ReapSystem.setOwner, ReapSystem.setKernel, table]
  have afterTable : after.kernel.processTable = system.kernel.processTable := by
    rw [← isAfter]
    exact table
  have samePhase : after.phase = system.phase := by rw [← isAfter]; rfl
  have history : after.history = system.history := by rw [← isAfter]; rfl
  have born : after.births block = system.births block + 1 := by simp [← isAfter]
  have notListed : ∀ i, system.kernel.processTable i ≠ some block := by
    intro i listed
    exact others ⟨block, system.listedAs i⟩
      (sound.listed i _ (slotRecord_eq_some.mpr ⟨listed, rfl⟩)) rfl
  refine ⟨?_, ?_, ?_, ?_, ?_, ?_, ?_, ?_, ?_⟩
  · rw [← isAfter]
    change kernel.processBlocks.Nodup
    rw [blocks]
    exact List.nodup_cons.mpr ⟨fresh, sound.blocks⟩
  · intro i record isRecord
    rw [slots] at isRecord
    exact stays record (sound.listed i record isRecord)
  · rw [afterTable]
    exact sound.single
  · intro t
    rw [samePhase]
    apply (sound.holds t).transfer
    · intro index record _ isRecord
      rw [slots]
      exact isRecord
    · intro record picked owns
      have different := others record (sound.live picked)
      simpa [← isAfter, ReapSystem.setOwner, ReapSystem.setKernel, different] using owns
    · exact fun record _ isLive => stays record isLive
    · rw [afterTable]
      exact fun i p listed => listed
  · rw [samePhase]
    exact sound.alone
  · intro new mem
    rw [← isAfter] at mem
    rw [afterTable, samePhase]
    rcases List.mem_cons.mp mem with rfl | old
    · refine ⟨?_, empty, notListed, fun t record picked => others record (sound.live picked)⟩
      simp [← isAfter, Live, PendingProcess.record, ReapSystem.setOwner, ReapSystem.setKernel,
        blocks]
    · rcases sound.pending new old with ⟨isLive, rest⟩
      exact ⟨stays _ isLive, rest⟩
  · rw [← isAfter]
    refine List.nodup_cons.mpr ⟨?_, sound.apart⟩
    intro mem
    rcases List.mem_map.mp mem with ⟨new, old, same⟩
    exact others new.record (sound.pending new old).1 same
  · intro record mem
    rw [history] at mem
    rcases sound.freed record mem with ⟨before, dead⟩
    by_cases same : record.block = block
    · rw [same] at before
      refine ⟨by rw [same, born]; omega, ?_⟩
      rintro ⟨_, birth⟩
      rw [same, born] at birth
      omega
    · refine ⟨?_, fun isLive => dead ((kept record same).mp isLive)⟩
      simpa [← isAfter, same] using before
  · rw [history]
    exact sound.reaped

theorem createBegin (sound : system.Sound) {request : ProcessRequest} {block addressSpace : ℕ}
    (fresh : block ∉ system.kernel.processBlocks) :
    (system.createBegin request block addressSpace).Sound := by
  unfold ReapSystem.createBegin
  generalize begins : system.kernel.processCreateBegin request block addressSpace = answer
  unfold Kernel.processCreateBegin at begins
  split at begins
  · rw [← begins]
    exact sound.setKernel rfl rfl
  split at begins
  · rw [← begins]
    exact sound.setKernel rfl rfl
  · rename_i slot free _
    rw [← begins]
    apply sound.allocate request fresh (Kernel.findFreeSlot_empty free)
    · rfl
    · rfl

/-- The other calls of `process_create` are about other blocks. -/
theorem others_of_eraseIdx (sound : system.Sound) {n : ℕ} {new other : PendingProcess}
    (isNew : system.pending[n]? = some new) (mem : other ∈ system.pending.eraseIdx n) :
    other.process ≠ new.process := by
  rcases List.mem_eraseIdx_iff_getElem?.mp mem with ⟨i, different, isOther⟩
  intro same
  apply different
  have bound : i < (system.pending.map (fun new => new.process)).length := by
    rw [List.length_map]
    exact (List.getElem?_eq_some_iff.mp isOther).1
  apply (List.getElem?_inj bound sound.apart).mp
  rw [List.getElem?_map, List.getElem?_map, isNew, isOther]
  exact congrArg some same

/-- A call of `process_create` is over. -/
theorem erasePending (sound : system.Sound) (n : ℕ) :
    ({ system with pending := system.pending.eraseIdx n }).Sound where
  blocks := sound.blocks
  listed := sound.listed
  single := sound.single
  holds := sound.holds
  alone := sound.alone
  pending new mem := sound.pending new (List.mem_of_mem_eraseIdx mem)
  apart := sound.apart.sublist ((List.eraseIdx_sublist _ n).map _)
  freed := sound.freed
  reaped := sound.reaped

theorem createFinish {after : ReapSystem} (sound : system.Sound) {n : ℕ} {new : PendingProcess}
    {memory : ThreadMemory} (isNew : system.pending[n]? = some new)
    (runs : system.createFinish n new memory = some after) : after.Sound := by
  have mem := List.mem_of_getElem? isNew
  rcases sound.pending new mem with ⟨live, empty, unlisted, unpicked⟩
  have erased := sound.erasePending n
  rcases Option.map_eq_some_iff.mp runs with ⟨⟨answer, kernel⟩, finishes, rfl⟩
  simp only [Kernel.processCreateFinish] at finishes
  split at finishes
  · rcases finishes
    exact erased.setKernel rfl rfl
  · rcases Option.map_eq_some_iff.mp finishes with ⟨⟨thread, created⟩, creates, returns⟩
    have same := Kernel.SameProcesses.threadCreate creates
    cases thread with
    | some t =>
        rcases returns
        exact erased.setKernel same.table same.blocks
    | none =>
        rcases returns
        have table : (created.processCreateUndo new.process new.slot).processTable =
            system.kernel.processTable := by
          rw [Kernel.processCreateUndo, same.table, ← empty]
          exact Function.update_eq_self _ _
        have blocks : (created.processCreateUndo new.process new.slot).processBlocks =
            system.kernel.processBlocks.erase new.process := by
          rw [Kernel.processCreateUndo, same.blocks]
        exact erased.release live unlisted unpicked
          (fun other isOther => sound.others_of_eraseIdx isNew isOther) table blocks

/-- An idle thread gives up or takes the lock of a process. -/
theorem setOwner_idle (sound : system.Sound) {u p : ℕ} {owner : Option ℕ}
    (idle : system.phase u = .idle) (before : system.owner p = none ∨ system.owner p = some u) :
    (system.setOwner p owner).Sound := by
  apply sound.setOwner
  intro t record picked _ isOwner
  rcases before with unowned | owned
  · simp [unowned] at isOwner
  · rw [owned, Option.some.injEq] at isOwner
    rw [← isOwner, idle] at picked
    simp [WaitPhase.child] at picked

theorem step {operation : ReapOperation} {after : ReapSystem} (sound : system.Sound)
    (guard : system.CollectsAlone operation) (step : ReapStep system operation after) :
    after.Sound := by
  rcases step with ⟨fuel, runs⟩
  cases operation with
  | call t pid =>
      simp only [perform, Option.ite_none_right_eq_some, Option.some.injEq] at runs
      rw [← runs.2]
      exact sound.letGo trivial rfl
  | lookup t =>
      simp only [perform] at runs
      split at runs
      · rename_i calls
        rw [← Option.some.inj runs]
        exact sound.lookup calls guard
      · simp at runs
  | contend t =>
      simp only [perform] at runs
      split at runs
      · rename_i child wanted
        rw [Option.ite_none_right_eq_some, Option.some.injEq] at runs
        rw [← runs.2]
        exact sound.read (sound.live (WaitPhase.child_of_wanted wanted))
      · simp at runs
  | check t =>
      simp only [perform] at runs
      split at runs
      · rename_i found
        rw [Option.ite_none_right_eq_some] at runs
        exact sound.check found runs.1 guard runs.2
      · simp at runs
  | block t =>
      simp only [perform] at runs
      split at runs
      · rename_i enqueued
        rcases Option.map_eq_some_iff.mp runs with ⟨blocked, blocks, rfl⟩
        exact sound.block enqueued blocks
      · simp at runs
  | collect t =>
      simp only [perform] at runs
      split at runs
      · rename_i asleep
        rw [Option.ite_none_right_eq_some] at runs
        have holds := sound.holds t
        rw [asleep] at holds
        rw [holds.2] at runs
        simp at runs
      · simp at runs
  | clear t =>
      simp only [perform] at runs
      split at runs
      · rename_i ended
        rw [← Option.some.inj runs]
        exact sound.clear ended
      · simp at runs
  | free t =>
      simp only [perform] at runs
      split at runs
      · rename_i unlisted
        rw [← Option.some.inj runs]
        exact sound.free unlisted
      · simp at runs
  | createBegin request block addressSpace =>
      simp only [perform, Option.ite_none_left_eq_some, Option.some.injEq] at runs
      rw [← runs.2]
      exact sound.createBegin runs.1
  | createFinish n memory =>
      rcases Option.bind_eq_some_iff.mp runs with ⟨new, isNew, finishes⟩
      exact sound.createFinish isNew finishes
  | lock u p =>
      simp only [perform, Option.ite_none_right_eq_some, Option.some.injEq] at runs
      rw [← runs.2]
      exact sound.setOwner_idle runs.1.1 (Or.inl runs.1.2)
  | unlock u p =>
      simp only [perform, Option.ite_none_right_eq_some, Option.some.injEq] at runs
      rw [← runs.2]
      exact sound.setOwner_idle runs.1.1 (Or.inr runs.1.2)
  | finish u p code =>
      simp only [perform, Option.ite_none_right_eq_some, Option.some.injEq] at runs
      rw [← runs.2]
      exact sound.setKernel rfl rfl
  | wake u p =>
      simp only [perform, Option.ite_none_right_eq_some, Option.map_eq_some_iff] at runs
      rcases runs with ⟨_, woken, wakes, rfl⟩
      have same := Kernel.SameProcesses.wakeWaiters wakes
      exact sound.setKernel same.table same.blocks
  | unblock tid =>
      rcases Option.map_eq_some_iff.mp runs with ⟨⟨answer, unblocked⟩, unblocks, rfl⟩
      have same := Kernel.SameProcesses.threadUnblock unblocks
      exact sound.setKernel same.table same.blocks

end Sound

theorem Started.sound (started : system.Started) : system.Sound where
  blocks := started.blocks
  listed i record isRecord := by
    rw [slotRecord_eq_some] at isRecord
    rcases started.listed i record.block isRecord.1 with ⟨mem, birth⟩
    exact ⟨mem, birth.trans isRecord.2⟩
  single := started.single
  holds t := by
    rw [started.idle]
    trivial
  alone t record isCollected := by
    rw [started.idle] at isCollected
    simp [WaitPhase.collected] at isCollected
  pending := by simp [started.pending]
  apart := by simp [started.pending]
  freed := by simp [started.history]
  reaped := by
    rw [started.history]
    exact .empty

end ReapSystem

/-- In every interleaving in which a call that finds its child over is the only one under way
on this child, every record is freed at most once and never read afterwards, and only
the slot of the child is cleared. -/
theorem reaped_once_guarded_runs {start last : ReapSystem} {operations : List ReapOperation}
    (started : start.Started)
    (run : Transition.Run (Transition.Guarded ReapSystem.CollectsAlone ReapStep) start operations
      last) : ReapedOnce last.history := by
  have sound : last.Sound :=
    run.invariant (fun _ _ _ sound guarded => sound.step guarded.1 guarded.2) started.sound
  exact sound.reaped

/-! ## One waiter -/

/-- The thread that is inside `process_wait` when it takes the step. -/
def ReapOperation.waiter : ReapOperation → Option ℕ
  | .call t _ | .lookup t | .contend t | .check t | .block t | .collect t | .clear t | .free t =>
      some t
  | _ => none

namespace ReapSystem

variable {system after : ReapSystem} {t : ℕ}

theorem lookup_phase (system : ReapSystem) {u : ℕ} (different : u ≠ t) {parent pid : ℤ} :
    (system.lookup t parent pid).phase u = system.phase u := by
  unfold ReapSystem.lookup
  split
  · rw [setPhase_phase_ne _ different, record_phase]
  · rw [setPhase_phase_ne _ different, record_phase]

theorem createBegin_phase (system : ReapSystem) {request : ProcessRequest}
    {block addressSpace : ℕ} :
    (system.createBegin request block addressSpace).phase = system.phase := by
  unfold ReapSystem.createBegin
  split
  · rfl
  · rfl

/-- A step moves no thread but the one that takes it. -/
theorem perform_phase {fuel : ℕ} {operation : ReapOperation}
    (runs : system.perform fuel operation = some after) {u : ℕ}
    (other : operation.waiter ≠ some u) : after.phase u = system.phase u := by
  cases operation with
  | call t pid =>
      have different : u ≠ t := fun same => other (congrArg some same.symm)
      simp only [perform, Option.ite_none_right_eq_some, Option.some.injEq] at runs
      rw [← runs.2, setPhase_phase_ne _ different]
  | lookup t =>
      have different : u ≠ t := fun same => other (congrArg some same.symm)
      simp only [perform] at runs
      split at runs
      · rw [← Option.some.inj runs]
        exact lookup_phase system different
      · simp at runs
  | contend t =>
      simp only [perform] at runs
      split at runs
      · rw [Option.ite_none_right_eq_some, Option.some.injEq] at runs
        rw [← runs.2]
        rfl
      · simp at runs
  | check t =>
      have different : u ≠ t := fun same => other (congrArg some same.symm)
      simp only [perform] at runs
      split at runs
      · rw [Option.ite_none_right_eq_some] at runs
        rcases runs with ⟨_, runs⟩
        unfold ReapSystem.check at runs
        split at runs
        · rw [← Option.some.inj runs, markExited, setPhase_phase_ne _ different]
          rfl
        · rcases Option.map_eq_some_iff.mp runs with ⟨queued, _, rfl⟩
          rw [setPhase_phase_ne _ different]
          rfl
      · simp at runs
  | block t =>
      have different : u ≠ t := fun same => other (congrArg some same.symm)
      simp only [perform] at runs
      split at runs
      · rcases Option.map_eq_some_iff.mp runs with ⟨blocked, _, rfl⟩
        rw [setPhase_phase_ne _ different]
        rfl
      · simp at runs
  | collect t =>
      have different : u ≠ t := fun same => other (congrArg some same.symm)
      simp only [perform] at runs
      split at runs
      · rw [Option.ite_none_right_eq_some, Option.some.injEq] at runs
        rw [← runs.2, markExited, setPhase_phase_ne _ different]
        rfl
      · simp at runs
  | clear t =>
      have different : u ≠ t := fun same => other (congrArg some same.symm)
      simp only [perform] at runs
      split at runs
      · rw [← Option.some.inj runs, ReapSystem.clear, setPhase_phase_ne _ different]
        rfl
      · simp at runs
  | free t =>
      have different : u ≠ t := fun same => other (congrArg some same.symm)
      simp only [perform] at runs
      split at runs
      · rw [← Option.some.inj runs, ReapSystem.free, setPhase_phase_ne _ different]
        rfl
      · simp at runs
  | createBegin request block addressSpace =>
      simp only [perform, Option.ite_none_left_eq_some, Option.some.injEq] at runs
      rw [← runs.2]
      exact congrFun (createBegin_phase system) u
  | createFinish n memory =>
      rcases Option.bind_eq_some_iff.mp runs with ⟨new, _, finishes⟩
      rcases Option.map_eq_some_iff.mp finishes with ⟨answer, _, rfl⟩
      rfl
  | lock u p | unlock u p | finish u p code =>
      simp only [perform, Option.ite_none_right_eq_some, Option.some.injEq] at runs
      rw [← runs.2]
      rfl
  | wake u p =>
      simp only [perform, Option.ite_none_right_eq_some, Option.map_eq_some_iff] at runs
      rcases runs with ⟨_, woken, _, rfl⟩
      rfl
  | unblock tid =>
      rcases Option.map_eq_some_iff.mp runs with ⟨answer, _, rfl⟩
      rfl

/-- A thread that is the only one in `process_wait` is alone with its child. -/
theorem collectsAlone_of_idle {operation : ReapOperation}
    (idle : ∀ u, u ≠ t → system.phase u = .idle) (mine : ∀ u, operation.waiter = some u → u = t) :
    system.CollectsAlone operation := by
  cases operation with
  | check v =>
      have same := mine v rfl
      subst same
      intro child index pid _ _ u different other picked
      rw [idle u different] at picked
      simp [WaitPhase.child] at picked
  | lookup v =>
      have same := mine v rfl
      subst same
      intro parent pid child index calls _ u other isCollected
      by_cases same : u = v
      · rw [same, calls] at isCollected
        simp [WaitPhase.collected] at isCollected
      · rw [idle u same] at isCollected
        simp [WaitPhase.collected] at isCollected
  | _ => trivial

theorem run_of_one_waiter {last : ReapSystem} {operations : List ReapOperation}
    (idle : ∀ u, u ≠ t → system.phase u = .idle)
    (mine : ∀ operation ∈ operations, ∀ u, operation.waiter = some u → u = t)
    (run : Transition.Run ReapStep system operations last) :
    Transition.Run (Transition.Guarded CollectsAlone ReapStep) system operations last := by
  induction run with
  | nil system => exact .nil system
  | cons head tail ih =>
      have here := mine _ List.mem_cons_self
      refine .cons ⟨collectsAlone_of_idle idle here, head⟩ (ih ?_ ?_)
      · intro u different
        rcases head with ⟨fuel, runs⟩
        rw [perform_phase runs (fun isWaiter => different (here u isWaiter))]
        exact idle u different
      · exact fun operation mem => mine operation (List.mem_cons_of_mem _ mem)

end ReapSystem

/-! ## Two threads of the parent -/

/-- The kernel thread, the idle thread and two more threads of the kernel process, which has
a child in the second slot. -/
def childKernel : Kernel :=
  { (startedKernel.withThread 0x1200).withThread 0x1300 with
    processTable := fun i => if i = 0 then some 0x100 else if i = 1 then some 0x200 else none
    processBlocks := [0x200, 0x100] }.modifyProcess 0x200 (fun _ =>
      { pid := 1, ppid := 0, state := .running })

def childSystem : ReapSystem where
  kernel := childKernel
  owner _ := none
  phase _ := .idle
  pending := []
  births p := if p = 0x100 ∨ p = 0x200 then 1 else 0
  listedAs _ := 1
  history := []

theorem childSystem_started : childSystem.Started := by
  have table : ∀ i p, childSystem.kernel.processTable i = some p →
      (i = 0 ∧ p = 0x100) ∨ i = 1 ∧ p = 0x200 := by
    intro i p listed
    simp only [childSystem, childKernel, Kernel.modifyProcess] at listed
    split at listed
    · exact .inl ⟨by assumption, (Option.some.inj listed).symm⟩
    · split at listed
      · exact .inr ⟨by assumption, (Option.some.inj listed).symm⟩
      · simp at listed
  have blocks : childSystem.kernel.processBlocks = [0x200, 0x100] := by
    simp only [childSystem, childKernel, Kernel.modifyProcess]
  refine ⟨fun _ => rfl, rfl, rfl, ?_, ?_, ?_⟩
  · intro i p listed
    rw [blocks]
    rcases table i p listed with ⟨_, rfl⟩ | ⟨_, rfl⟩
    · exact ⟨by simp, rfl⟩
    · exact ⟨by simp, rfl⟩
  · intro i j p first second
    rcases table i p first with ⟨rfl, rfl⟩ | ⟨rfl, rfl⟩
    · rcases table j _ second with ⟨rfl, _⟩ | ⟨_, different⟩
      · rfl
      · simp at different
    · rcases table j _ second with ⟨_, different⟩ | ⟨rfl, _⟩
      · simp at different
      · rfl
  · rw [blocks]
    decide

theorem reapStep_of_perform (fuel : ℕ) (system : ReapSystem) (operation : ReapOperation)
    (after : ReapSystem) (runs : system.perform fuel operation = some after) :
    ReapStep system operation after :=
  ⟨fuel, runs⟩

/-- A thread of the parent ends the child with `process_terminate`. -/
def terminateChild : List ReapOperation :=
  [.lock 0x1300 0x200, .finish 0x1300 0x200 0, .unlock 0x1300 0x200]

def childRecord : ProcessRecord := ⟨0x200, 1⟩

def parentRecord : ProcessRecord := ⟨0x100, 1⟩

def reapedByOne : List ReapOperation :=
  terminateChild ++ [.call 0x1000 1, .lookup 0x1000, .check 0x1000, .clear 0x1000, .free 0x1000]

/-- The kernel thread collects the child. -/
theorem reaped_once_guarded_runs_one :
    ∃ last : ReapSystem, last.history = [.free childRecord, .read childRecord,
      .clear 1 (some childRecord) childRecord, .read childRecord, .read parentRecord,
        .read childRecord] ∧ ReapedOnce last.history := by
  have history : (Transition.follow (fun system => system.perform 8) reapedByOne childSystem).map
      ReapSystem.history = some [.free childRecord, .read childRecord,
        .clear 1 (some childRecord) childRecord, .read childRecord, .read parentRecord,
          .read childRecord] := by
    decide +kernel
  rcases Option.map_eq_some_iff.mp history with ⟨last, follows, isHistory⟩
  have mine : ∀ operation ∈ reapedByOne, ∀ u, operation.waiter = some u → u = 0x1000 := by
    intro operation mem u isWaiter
    simp only [reapedByOne, terminateChild, List.cons_append, List.nil_append, List.mem_cons,
      List.not_mem_nil, or_false] at mem
    rcases mem with rfl | rfl | rfl | rfl | rfl | rfl | rfl | rfl <;>
      simp_all [ReapOperation.waiter]
  have run := ReapSystem.run_of_one_waiter (fun u _ => childSystem_started.idle u) mine
    (Transition.run_of_follow (fun _ _ _ => reapStep_of_perform 8 _ _ _) follows)
  exact ⟨last, isHistory, reaped_once_guarded_runs childSystem_started run⟩

def reapedByTwo : List ReapOperation :=
  terminateChild ++ [.call 0x1000 1, .call 0x1200 1, .lookup 0x1000, .lookup 0x1200,
    .check 0x1000, .check 0x1200, .clear 0x1000, .free 0x1000, .clear 0x1200, .free 0x1200]

/-- Two threads of the parent wait for the child: both find that it is over and both free
it. -/
theorem zombie_freed_twice :
    childSystem.Started ∧ ∃ operations last,
      Transition.Run ReapStep childSystem operations last ∧ ¬ ReapedOnce last.history := by
  have frees : (Transition.follow (fun system => system.perform 8) reapedByTwo childSystem).map
      (fun last => last.history.count (.free childRecord)) = some 2 := by
    decide +kernel
  rcases Option.map_eq_some_iff.mp frees with ⟨last, follows, twice⟩
  refine ⟨childSystem_started, reapedByTwo, last,
    Transition.run_of_follow (fun _ _ _ => reapStep_of_perform 8 _ _ _) follows, ?_⟩
  intro reaped
  have once := reaped.freedOnce childRecord
  rw [twice] at once
  exact absurd once (by decide)

end Goshkik
