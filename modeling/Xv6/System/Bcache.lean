import Xv6.Kernel.Bio
import Mathlib.Logic.Relation

/-!
# Processes on the buffer cache (bio.c, ide.c, sleeplock.c)

Any number of processes call `bread`, `bwrite` and `brelse`.  Each call is cut where it
takes or gives up a lock, and each piece is one move:

* `bread(dev, blockno)` is `bget`'s critical section (`BioMove.bread`), then
  `acquiresleep` of the buffer's sleep-lock with `bread`'s test of `B_VALID` and, for a
  block not read yet, `iderw`'s queueing of the request (`BioMove.acquire`), then `iderw`'s
  wait for the disk (`BioMove.wake`);
* `bwrite(b)` is its test of the sleep-lock with the write of `B_DIRTY` and `iderw`'s
  queueing (`BioMove.bwrite`), then the wait;
* `brelse(b)` is its test of the sleep-lock with `releasesleep` (`BioMove.brelse`), then its
  critical section under `bcache.lock` (`BioMove.release`);
* the disk interrupt `ideintr` finishes the first request of `idequeue`.

A process that waits for a lock or for the disk makes its move again and again, and a move
that panics has no next state.  The parts of a call between two locks touch only a buffer
whose sleep-lock the process holds.  The model leaves out the panics of `iderw` and
`idestart` that depend on the disk (no disk 1, a block past `FSSIZE`): a run of the kernel
that panics there is cut short, and is a run here up to that point.

The history variable `assigned` marks the buffers whose block `bget` has set.  The
invariant `Coherent` says that the pointers list every buffer once, and that no buffer
holds the block of an assigned buffer.  The main result is `coherent_of_reachable`.
-/

namespace Xv6

open DList

/-- Where a process is in a call of the buffer cache. -/
inductive BufCall where
  | idle
  /-- In `bread`: `bget` returned `b`, and the process is in `acquiresleep(&b->lock)`. -/
  | acquiring (b : Fin NBUF)
  /-- In `iderw(b)`: the request for `b` is queued, and the process waits for the disk. -/
  | disk (b : Fin NBUF)
  /-- In `brelse(b)`: the sleep-lock is given up, and `bcache.lock` is next. -/
  | releasing (b : Fin NBUF)
deriving DecidableEq, Repr

/-- The buffer cache, the disk queue and the processes. -/
structure BioSys (ι : Type) where
  cache : Bcache ι
  /-- `idequeue`, through `qnext`: the requests for the disk, first one first. -/
  idequeue : List (Fin NBUF)
  calls : ι → BufCall
  /-- History: the buffers whose block `bget`'s second loop has set. -/
  assigned : Fin NBUF → Bool

/-- The moves of the processes and of the disk. -/
inductive BioMove (ι : Type) where
  /-- Process `i` calls `bread(dev, blockno)` and runs `bget`. -/
  | bread (i : ι) (dev blockno : UInt32)
  /-- `acquiresleep` in `bread`, then the read if the block is not valid. -/
  | acquire (i : ι)
  /-- Process `i` calls `bwrite(b)`. -/
  | bwrite (i : ι) (b : Fin NBUF)
  /-- The disk interrupt. -/
  | ideintr
  /-- `iderw`'s wait: `while((b->flags & (B_VALID|B_DIRTY)) != B_VALID) sleep(...)`. -/
  | wake (i : ι)
  /-- Process `i` calls `brelse(b)`, up to `releasesleep`. -/
  | brelse (i : ι) (b : Fin NBUF)
  /-- `brelse`'s critical section under `bcache.lock`. -/
  | release (i : ι)

namespace BioSys

variable {ι : Type} [DecidableEq ι]

/-- The system after `binit`, from any contents of `bcache`, with every process idle. -/
def start (c : Bcache ι) : BioSys ι := ⟨c.binit, [], fun _ => .idle, fun _ => false⟩

/-- `iderw(b)` by process `i`, up to its wait: its tests, then the request at the end of
`idequeue`. -/
def iderw (s : BioSys ι) (i : ι) (b : Fin NBUF) : Option (BioSys ι) :=
  if (s.cache.buf b).lock ≠ some i then none -- panic("iderw: buf not locked")
  else if (s.cache.buf b).flags &&& (B_VALID ||| B_DIRTY) = B_VALID then
    none -- panic("iderw: nothing to do")
  else some { s with idequeue := s.idequeue ++ [b], calls := Function.update s.calls i (.disk b) }

/-- One move; `none` when it panics, or when the process is not where the move starts. -/
def step (s : BioSys ι) : BioMove ι → Option (BioSys ι)
  | .bread i dev blockno =>
    if s.calls i = .idle then
      (s.cache.bget dev blockno).map fun (b, c) =>
        { s with
          cache := c
          calls := Function.update s.calls i (.acquiring b)
          assigned :=
            if s.cache.lookup dev blockno = some none then Function.update s.assigned b true
            else s.assigned }
    else none
  | .acquire i =>
    match s.calls i with
    | .acquiring b =>
      if (s.cache.buf b).lock = none then
        let s' := { s with cache := s.cache.modifyBuf b fun x => { x with lock := some i } }
        if (s'.cache.buf b).flags &&& B_VALID = 0 then s'.iderw i b
        else some { s' with calls := Function.update s.calls i .idle }
      else some s
    | _ => none
  | .bwrite i b =>
    if s.calls i = .idle then
      if (s.cache.buf b).lock ≠ some i then none -- panic("bwrite")
      else
        iderw { s with cache := s.cache.modifyBuf b fun x => { x with flags := x.flags ||| B_DIRTY } }
          i b
    else none
  | .ideintr =>
    match s.idequeue with
    | [] => some s
    | b :: q =>
      some { s with
        cache := s.cache.modifyBuf b fun x => { x with flags := (x.flags ||| B_VALID) &&& ~~~B_DIRTY }
        idequeue := q }
  | .wake i =>
    match s.calls i with
    | .disk b =>
      if (s.cache.buf b).flags &&& (B_VALID ||| B_DIRTY) = B_VALID then
        some { s with calls := Function.update s.calls i .idle }
      else some s
    | _ => none
  | .brelse i b =>
    if s.calls i = .idle then
      if (s.cache.buf b).lock ≠ some i then none -- panic("brelse")
      else
        some { s with
          cache := s.cache.modifyBuf b fun x => { x with lock := none }
          calls := Function.update s.calls i (.releasing b) }
    else none
  | .release i =>
    match s.calls i with
    | .releasing b =>
      some { s with cache := s.cache.brelseLocked b, calls := Function.update s.calls i .idle }
    | _ => none

/-- The states that runs from `s₀` reach. -/
def Reachable (s₀ : BioSys ι) : BioSys ι → Prop :=
  Relation.ReflTransGen (fun s s' => ∃ m, s.step m = some s') s₀

/-- The pointers list every buffer once, and no buffer holds the block of an assigned
buffer. -/
structure Coherent (s : BioSys ι) : Prop where
  listed : ∃ order, s.cache.Listed order
  unique : ∀ a b, a ≠ b → s.assigned a = true → s.cache.key a ≠ s.cache.key b

/-- A move that changes no block, no pointer and no history. -/
def Untouched (s s' : BioSys ι) : Prop :=
  s'.cache.key = s.cache.key ∧ s'.cache.links = s.cache.links ∧ s'.assigned = s.assigned

omit [DecidableEq ι] in
lemma untouched_modifyBuf {s s' : BioSys ι} {b : Fin NBUF} {f : Buf ι → Buf ι}
    (hc : s'.cache = s.cache.modifyBuf b f) (hdev : (f (s.cache.buf b)).dev = (s.cache.buf b).dev)
    (hblockno : (f (s.cache.buf b)).blockno = (s.cache.buf b).blockno)
    (ha : s'.assigned = s.assigned) : s.Untouched s' := by
  refine ⟨?_, ?_, ha⟩
  · rw [hc]
    exact s.cache.key_modifyBuf hdev hblockno
  · rw [hc]
    rfl

omit [DecidableEq ι] in
lemma of_some_eq {s s' : BioSys ι} (h : some s = some s') :
    s'.cache = s.cache ∧ s'.assigned = s.assigned := by
  cases h
  exact ⟨rfl, rfl⟩

lemma iderw_eq_some {s s' : BioSys ι} {i : ι} {b : Fin NBUF} (h : s.iderw i b = some s') :
    s'.cache = s.cache ∧ s'.assigned = s.assigned := by
  unfold iderw at h
  split_ifs at h
  obtain ⟨hc, ha⟩ := of_some_eq h
  exact ⟨hc, ha⟩

/-- What a move can do to the cache and the history: nothing to the blocks and the
pointers; or, in `bget`, give a block that the first loop did not find to a buffer that the
second loop found unused; or `brelse`'s critical section. -/
lemma step_cases {s s' : BioSys ι} {m : BioMove ι} (h : s.step m = some s') :
    s.Untouched s' ∨
      (∃ dev blockno b, s.cache.lookup dev blockno = some none ∧
        s.cache.unused (.buf b) = true ∧
        s'.cache.key = Function.update s.cache.key b (dev, blockno) ∧
        s'.cache.links = s.cache.links ∧ s'.assigned = Function.update s.assigned b true) ∨
      ∃ b, s'.cache = s.cache.brelseLocked b ∧ s'.assigned = s.assigned := by
  cases m with
  | bread i dev blockno =>
    dsimp only [step] at h
    by_cases hidle : s.calls i = .idle
    · rw [if_pos hidle] at h
      obtain ⟨⟨b, c⟩, hb, hs'⟩ := Option.map_eq_some_iff.mp h
      subst hs'
      rcases Bcache.bget_cases hb with ⟨hlook, -, rfl⟩ | ⟨hlook, hunused, rfl⟩
      · -- a hit only counts a reference
        refine Or.inl ⟨?_, rfl, by simp [hlook]⟩
        dsimp only
        exact s.cache.key_modifyBuf rfl rfl
      · refine Or.inr (Or.inl ⟨dev, blockno, b, hlook, hunused, ?_, rfl, by simp [hlook]⟩)
        dsimp only
        exact s.cache.key_modifyBuf_eq _ _
    · rw [if_neg hidle] at h
      cases h
  | acquire i =>
    dsimp only [step] at h
    split at h
    · split_ifs at h
      · -- the block is not valid: the lock, then the read request
        obtain ⟨hc, ha⟩ := iderw_eq_some h
        dsimp only at hc ha
        exact Or.inl (untouched_modifyBuf hc rfl rfl ha)
      · obtain ⟨hc, ha⟩ := of_some_eq h
        dsimp only at hc ha
        exact Or.inl (untouched_modifyBuf hc rfl rfl ha)
      · obtain ⟨hc, ha⟩ := of_some_eq h
        exact Or.inl ⟨by rw [hc], by rw [hc], ha⟩
    · cases h
  | bwrite i b =>
    dsimp only [step] at h
    split_ifs at h
    obtain ⟨hc, ha⟩ := iderw_eq_some h
    dsimp only at hc ha
    exact Or.inl (untouched_modifyBuf hc rfl rfl ha)
  | ideintr =>
    dsimp only [step] at h
    split at h
    · obtain ⟨hc, ha⟩ := of_some_eq h
      exact Or.inl ⟨by rw [hc], by rw [hc], ha⟩
    · obtain ⟨hc, ha⟩ := of_some_eq h
      dsimp only at hc ha
      exact Or.inl (untouched_modifyBuf hc rfl rfl ha)
  | wake i =>
    dsimp only [step] at h
    split at h
    · split_ifs at h
      · obtain ⟨hc, ha⟩ := of_some_eq h
        dsimp only at hc ha
        exact Or.inl ⟨by rw [hc], by rw [hc], ha⟩
      · obtain ⟨hc, ha⟩ := of_some_eq h
        exact Or.inl ⟨by rw [hc], by rw [hc], ha⟩
    · cases h
  | brelse i b =>
    dsimp only [step] at h
    split_ifs at h
    obtain ⟨hc, ha⟩ := of_some_eq h
    dsimp only at hc ha
    exact Or.inl (untouched_modifyBuf hc rfl rfl ha)
  | release i =>
    dsimp only [step] at h
    split at h
    · obtain ⟨hc, ha⟩ := of_some_eq h
      dsimp only at hc ha
      exact Or.inr (Or.inr ⟨_, hc, ha⟩)
    · cases h

/-! ## The invariant -/

omit [DecidableEq ι] in
lemma coherent_start (c : Bcache ι) : (start c).Coherent :=
  ⟨⟨_, c.listed_binit⟩, fun _ _ _ ha => absurd ha Bool.false_ne_true⟩

/-- Every move keeps the invariant.  Only `bget`'s recycling changes a block: the buffer
gets a block that, by the list, no buffer holds; only `brelse` moves pointers. -/
theorem Coherent.step {s s' : BioSys ι} {m : BioMove ι} (hs : s.Coherent)
    (h : s.step m = some s') : s'.Coherent := by
  obtain ⟨order, hl⟩ := hs.listed
  rcases step_cases h with ⟨hkey, hlinks, hassigned⟩ |
      ⟨dev, blockno, b, hlook, -, hkey, hlinks, hassigned⟩ | ⟨b, hc, hassigned⟩
  · refine ⟨⟨order, hl.of_links hlinks⟩, ?_⟩
    rw [hkey, hassigned]
    exact hs.unique
  · refine ⟨⟨order, hl.of_links hlinks⟩, ?_⟩
    have hfree := hl.key_ne_of_lookup hlook
    intro a a' haa' ha
    rw [hkey]
    rw [hassigned] at ha
    by_cases hab : a = b
    · subst hab
      rw [Function.update_self, Function.update_of_ne (Ne.symm haa')]
      exact (hfree a').symm
    · rw [Function.update_of_ne hab] at ha ⊢
      by_cases ha'b : a' = b
      · subst ha'b
        rw [Function.update_self]
        exact hfree a
      · rw [Function.update_of_ne ha'b]
        exact hs.unique a a' haa' ha
  · refine ⟨?_, ?_⟩
    · rw [hc]
      exact hl.brelseLocked b
    · rw [hc, Bcache.key_brelseLocked, hassigned]
      exact hs.unique

/-- Every run from a coherent state keeps the invariant.  The induction is on the run. -/
theorem Coherent.reachable {s₀ s : BioSys ι} (h₀ : s₀.Coherent) (h : Reachable s₀ s) :
    s.Coherent := by
  induction h with
  | refl => exact h₀
  | tail _ hmove ih =>
    obtain ⟨m, hm⟩ := hmove
    exact ih.step hm

/-- A move changes the block of no buffer that a process holds a reference to or that the log
pins. -/
lemma key_step_of_used {s s' : BioSys ι} {m : BioMove ι} (h : s.step m = some s')
    {b : Fin NBUF} (hb : 0 < (s.cache.buf b).refcnt ∨ (s.cache.buf b).flags &&& B_DIRTY ≠ 0) :
    s'.cache.key b = s.cache.key b := by
  rcases step_cases h with ⟨hkey, -⟩ | ⟨dev, blockno, b', -, hunused, hkey, -⟩ | ⟨b', hc, -⟩
  · rw [hkey]
  · have hbb' : b ≠ b' := by
      rintro rfl
      obtain ⟨hzero, hclean⟩ := (s.cache.unused_buf b).mp hunused
      rw [hzero, hclean] at hb
      simp at hb
    rw [hkey, Function.update_of_ne hbb']
  · rw [hc, Bcache.key_brelseLocked]

/-! ## Runs -/

/-- In every state that a run from `binit` reaches, whatever `bcache` held before: no two
buffers whose block `bget` has set hold the same block; the pointers make a circular doubly
linked list through `head` of every buffer exactly once; and no move gives a buffer with a
reference or with `B_DIRTY` another block. -/
theorem coherent_of_reachable {c₀ : Bcache ι} {s : BioSys ι} (h : Reachable (start c₀) s) :
    (∀ a b, a ≠ b → s.assigned a = true → s.assigned b = true →
      s.cache.key a ≠ s.cache.key b) ∧
    (∃ order : List (Fin NBUF), order.Perm (List.finRange NBUF) ∧
      s.cache.links.Ring .head (order.map .buf)) ∧
    ∀ (m : BioMove ι) s' b, s.step m = some s' →
      (0 < (s.cache.buf b).refcnt ∨ (s.cache.buf b).flags &&& B_DIRTY ≠ 0) →
      s'.cache.key b = s.cache.key b := by
  have hs := (coherent_start c₀).reachable h
  refine ⟨fun a b hab ha _ => hs.unique a b hab ha, hs.listed, ?_⟩
  intro m s' b hm hb
  exact key_step_of_used hm hb

/-- The moves from a state one after the other; `none` when one of them has no next
state. -/
def runMoves (s : BioSys ι) : List (BioMove ι) → Option (BioSys ι)
  | [] => some s
  | m :: ms => (s.step m).bind fun s' => runMoves s' ms

/-- The state a list of moves leads to is reachable.  The induction is on the list. -/
lemma reachable_of_runMoves :
    ∀ {s s' : BioSys ι} {ms : List (BioMove ι)}, runMoves s ms = some s' → Reachable s s'
  | _, _, [], h => by
    cases h
    exact Relation.ReflTransGen.refl
  | s, s', m :: ms, h => by
    obtain ⟨s₁, hm, hrest⟩ := Option.bind_eq_some_iff.mp h
    exact Relation.ReflTransGen.head ⟨m, hm⟩ (reachable_of_runMoves hrest)

/-- `bcache` as static storage leaves it: every buffer zero, every pointer at `head`. -/
def zeroCache : Bcache (Fin 2) :=
  ⟨fun _ => ⟨0, 0, 0, none, 0⟩, ⟨fun _ => .head, fun _ => .head⟩⟩

/-- Process `0` reads block `7` of device `1`, which goes to the buffer that `binit` put last,
and releases it, which moves the buffer to the front. -/
def readRelease : List (BioMove (Fin 2)) :=
  [.bread 0 1 7, .acquire 0, .ideintr, .wake 0, .brelse 0 0, .release 0]

/-- The state after `readRelease`. -/
def readReleaseState : BioSys (Fin 2) :=
  (runMoves (start zeroCache) readRelease).getD (start zeroCache)

set_option maxRecDepth 8000 in
theorem coherent_of_reachable_readRelease :
    Reachable (start zeroCache) readReleaseState ∧ readReleaseState.assigned 0 = true ∧
      readReleaseState.cache.key 0 = (1, 7) ∧
      readReleaseState.cache.links.next .head = .buf 0 ∧
      ((∀ a b, a ≠ b → readReleaseState.assigned a = true → readReleaseState.assigned b = true →
          readReleaseState.cache.key a ≠ readReleaseState.cache.key b) ∧
        (∃ order : List (Fin NBUF), order.Perm (List.finRange NBUF) ∧
          readReleaseState.cache.links.Ring .head (order.map .buf)) ∧
        ∀ (m : BioMove (Fin 2)) s' b, readReleaseState.step m = some s' →
          (0 < (readReleaseState.cache.buf b).refcnt ∨
            (readReleaseState.cache.buf b).flags &&& B_DIRTY ≠ 0) →
          s'.cache.key b = readReleaseState.cache.key b) := by
  have hsome : (runMoves (start zeroCache) readRelease).isSome = true := by decide
  have hrun : runMoves (start zeroCache) readRelease = some readReleaseState := by
    unfold readReleaseState
    revert hsome
    cases runMoves (start zeroCache) readRelease with
    | none => intro h; cases h
    | some s => intro _; rfl
  have hreach := reachable_of_runMoves hrun
  exact ⟨hreach, by decide, by decide, by decide,
    coherent_of_reachable hreach⟩

end BioSys

end Xv6
