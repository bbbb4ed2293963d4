import VllmRwkv.Lib.LinkedList
import VllmRwkv.Lib.Raise

/-!
# The free block queue

`FreeKVCacheBlockQueue` of `v1/core/kv_cache_utils.py`: a doubly linked list threaded through
the blocks themselves, between a fake head and a fake tail, with a redundant counter.

`FreeKVCacheBlockQueue.Lists q xs` relates the queue to the list of its blocks; one lemma per
method says what the method does to that list.
-/

namespace VllmRwkv

open List LinkedList Raise

/-- The exceptions the modelled code raises. -/
inductive PyErr where
  | valueError (msg : String)
  | runtimeError (msg : String)
  | assertionError (msg : String)
  | indexError
  | keyError
  deriving DecidableEq, Repr

/-- A reference to a `KVCacheBlock` object: block `id` of the pool, or one of the two sentinels
that the free queue creates for itself. -/
inductive KVCacheBlock where
  | fakeHead
  | fakeTail
  | block (id : ℕ)
  deriving DecidableEq, Repr

structure FreeKVCacheBlockQueue where
  numFreeBlocks : ℤ
  links : Links KVCacheBlock

abbrev QueueM := EStateM PyErr FreeKVCacheBlockQueue

namespace FreeKVCacheBlockQueue

open KVCacheBlock

/-- `__init__`: consecutive blocks are linked to each other and to the two sentinels. -/
def init (blocks : List KVCacheBlock) : FreeKVCacheBlockQueue :=
  let none' : Links KVCacheBlock := { prev := fun _ => none, next := fun _ => none }
  let chained := none'.linkAll fakeHead blocks
  { numFreeBlocks := blocks.length, links := chained.1.link chained.2 fakeTail }

def modifyLinks (f : Links KVCacheBlock → Links KVCacheBlock) : QueueM Unit :=
  modify fun q => { q with links := f q.links }

def addNum (n : ℤ) : QueueM Unit :=
  modify fun q => { q with numFreeBlocks := q.numFreeBlocks + n }

def popleft : QueueM KVCacheBlock := do
  let q ← get
  match q.links.next fakeHead with
  | none | some fakeTail =>
    if q.numFreeBlocks ≠ 0 then throw (.assertionError "out of sync with the free list.")
    else throw (.valueError "No free blocks available")
  | some firstBlock =>
    match q.links.next firstBlock with
    | none => throw (.runtimeError "Invalid block found in popleft()")
    | some nextBlock => do
      modifyLinks fun L => (L.link fakeHead nextBlock).clear firstBlock
      addNum (-1)
      return firstBlock

/-- The loop of `popleft_n`: the blocks taken and the block the loop stops at. -/
def popleftLoop : ℕ → Option KVCacheBlock → QueueM (List KVCacheBlock × Option KVCacheBlock)
  | 0, currBlock => pure ([], currBlock)
  | _ + 1, none => throw (.assertionError "curr_block is not None")
  | n + 1, some lastBlock => do
    let currBlock := (← get).links.next lastBlock
    modifyLinks fun L => L.clear lastBlock
    let (ret, stop) ← popleftLoop n currBlock
    return (lastBlock :: ret, stop)

def popleftN (n : ℕ) : QueueM (List KVCacheBlock) := do
  if n = 0 then return []
  if (← get).numFreeBlocks < n then throw (.assertionError "self.num_free_blocks >= n")
  addNum (-n)
  let currBlock := (← get).links.next fakeHead
  if n = 1 then
    match currBlock with
    | none => throw (.assertionError "curr_block is not None")
    | some currBlock => do
      let nextBlock := (← get).links.next currBlock
      modifyLinks fun L => L.clear currBlock
      match nextBlock with
      | none => return [currBlock]
      | some nextBlock => do
        modifyLinks fun L => L.link fakeHead nextBlock
        return [currBlock]
  else
    let (ret, currBlock) ← popleftLoop n currBlock
    match currBlock with
    | none => return ret
    | some currBlock => do
      modifyLinks fun L => L.link fakeHead currBlock
      return ret

def remove (block : KVCacheBlock) : QueueM Unit := do
  let q ← get
  match q.links.prev block, q.links.next block with
  | some prevBlock, some nextBlock => do
    modifyLinks fun L => (L.link prevBlock nextBlock).clear block
    addNum (-1)
  | _, _ => throw (.runtimeError "remove() called on an invalid block")

def append (block : KVCacheBlock) : QueueM Unit := do
  match (← get).links.prev fakeTail with
  | none => throw (.runtimeError "prev_free_block of fake_free_list_tail should always exist")
  | some lastBlock => do
    modifyLinks fun L => (L.link lastBlock block).link block fakeTail
    addNum 1

def prependN (blocks : List KVCacheBlock) : QueueM Unit := do
  if blocks.length = 0 then return
  match (← get).links.next fakeHead with
  | none => throw (.assertionError "next_free_block of fake_free_list_head should always exist")
  | some firstBlock => do
    modifyLinks fun L =>
      let chained := L.linkAll fakeHead blocks
      chained.1.link chained.2 firstBlock
    addNum blocks.length

def appendN (blocks : List KVCacheBlock) : QueueM Unit := do
  if blocks.length = 0 then return
  match (← get).links.prev fakeTail with
  | none => throw (.assertionError "prev_free_block of fake_free_list_tail should always exist")
  | some lastBlock => do
    modifyLinks fun L =>
      let chained := L.linkAll lastBlock blocks
      chained.1.link chained.2 fakeTail
    addNum blocks.length

/-! ## What each method does to the list of free blocks -/

/-- The queue holds exactly the blocks `xs`, in this order, and its counter is right. -/
structure Lists (q : FreeKVCacheBlockQueue) (xs : List KVCacheBlock) : Prop where
  list : DList q.links fakeHead fakeTail xs
  count : q.numFreeBlocks = xs.length

variable {q : FreeKVCacheBlockQueue} {xs : List KVCacheBlock} {b : KVCacheBlock}
  {R : PyErr → FreeKVCacheBlockQueue → Prop} {Q : Unit → FreeKVCacheBlockQueue → Prop}

@[simp] theorem wp_modifyLinks {f : Links KVCacheBlock → Links KVCacheBlock}
     : wp (modifyLinks f) Q R q ↔ Q () { q with links := f q.links } := Iff.rfl

@[simp] theorem wp_addNum {n : ℤ} :
    wp (addNum n) Q R q ↔ Q () { q with numFreeBlocks := q.numFreeBlocks + n } := Iff.rfl

theorem Lists.nodup (hq : q.Lists xs) : xs.Nodup := (nodup_append.1 (nodup_cons.1 hq.list.nodup).2).1

theorem Lists.notMem_sentinel (hq : q.Lists xs) : fakeHead ∉ xs ∧ fakeTail ∉ xs := by
  have hnd := hq.list.nodup
  rw [nodup_cons, nodup_append] at hnd
  exact ⟨fun hm => hnd.1 (mem_append_left _ hm), fun hm => hnd.2.2.2 _ hm _ (by simp) rfl⟩

theorem init_lists (hnd : xs.Nodup) (hh : fakeHead ∉ xs) (ht : fakeTail ∉ xs) : (init xs).Lists xs := by
  refine ⟨dlist_linkAll (fun _ => ⟨rfl, rfl⟩) ?_, rfl⟩
  rw [nodup_cons, nodup_append]
  refine ⟨by simp [hh], hnd, by simp, ?_⟩
  intro x hx y hy hxy
  rw [mem_singleton] at hy
  exact ht (hy ▸ hxy ▸ hx)

/-- The links of a block between two neighbours, and what is left without it. -/
theorem Lists.unlink {ys m r : List KVCacheBlock} {p y : KVCacheBlock} (hq : q.Lists xs)
    (hxs : fakeHead :: (xs ++ [fakeTail]) = m ++ p :: b :: y :: r)
    (hys : fakeHead :: (ys ++ [fakeTail]) = m ++ p :: y :: r) :
    Linked q.links p b ∧ Linked q.links b y ∧ Lists ⟨q.numFreeBlocks + -1, (q.links.link p y).clear b⟩ ys := by
  have hne : b ≠ p ∧ b ≠ y := by
    have hnd := hq.list.nodup
    rw [hxs, nodup_append] at hnd
    simp only [nodup_cons, mem_cons, not_or] at hnd
    exact ⟨fun h => hnd.2.1.1.1 h.symm, hnd.2.1.2.1.1⟩
  have hlen := congrArg length hxs
  have hlen' := congrArg length hys
  have hcount := hq.count
  simp only [length_cons, length_append, length_nil] at hlen hlen'
  refine ⟨hq.list.linked hxs, hq.list.linked (l := m ++ [p]) (r := r) (by rw [hxs]; simp), ?_, ?_⟩
  · rw [clear_link hne.1 hne.2]
    exact hq.list.cut (show _ = m ++ p :: ([b] ++ _) from hxs) hys
  · show q.numFreeBlocks + -1 = ys.length
    omega

theorem popleft_spec (hq : q.Lists (b :: xs)) : wp popleft (fun ret q' => ret = b ∧ q'.Lists xs) never q := by
  obtain ⟨y, r, hy⟩ : ∃ y r, xs ++ [fakeTail] = y :: r := exists_cons_of_ne_nil (by simp)
  have hbt : b ≠ fakeTail := by rintro rfl; exact hq.notMem_sentinel.2 mem_cons_self
  have hxs : fakeHead :: (b :: xs ++ [fakeTail]) = [] ++ fakeHead :: b :: y :: r := by simp [hy]
  have hys : fakeHead :: (xs ++ [fakeTail]) = [] ++ fakeHead :: y :: r := by simp [hy]
  obtain ⟨h1, h2, hrest⟩ := hq.unlink hxs hys
  unfold popleft
  rw [wp_get_bind, h1.1]
  simp only
  rw [h2.1]
  simp only [wp_bind, wp_modifyLinks, wp_addNum, wp_pure, true_and]
  exact hrest

/-- The loop takes the nodes of a linked segment one by one and clears them. -/
theorem popleftLoop_spec {ns : List KVCacheBlock} {stop : KVCacheBlock}
    (hc : IsChain (Linked q.links) (ns ++ [stop])) (hnd : (ns ++ [stop]).Nodup) :
    wp (popleftLoop ns.length (some ((ns ++ [stop]).head (by simp))))
      (fun ret q' => ret = (ns, some stop) ∧ q' = { q with links := q.links.clearAll ns }) never q := by
  induction ns generalizing q with
  | nil => exact ⟨rfl, rfl⟩
  | cons n ns ih =>
    have hnext : q.links.next n = some ((ns ++ [stop]).head (by simp)) := next_eq_head hc _
    obtain ⟨hn, hnd'⟩ := nodup_cons.1 hnd
    have hc' : IsChain (Linked (q.links.clearAll [n])) (ns ++ [stop]) := by
      refine isChain_clearAll (IsChain.tail hc) fun x hx hm => ?_
      exact hn (mem_singleton.1 hm ▸ hx)
    simp only [length_cons, cons_append, head_cons, popleftLoop, wp_bind, wp_get, wp_modifyLinks, hnext]
    refine wp_imp (ih hc' hnd') ?_
    rintro _ _ ⟨rfl, rfl⟩
    exact ⟨rfl, rfl⟩

theorem popleftN_spec {n : ℕ} (hq : q.Lists xs) (hn : n ≤ xs.length) :
    wp (popleftN n) (fun ret q' => ret = xs.take n ∧ q'.Lists (xs.drop n)) never q := by
  have hcnt := hq.count
  unfold popleftN
  by_cases h0 : n = 0
  · subst h0; simpa using hq
  -- `xs = front ++ back`, and `y` is the node behind the blocks taken
  obtain ⟨y, r, hy⟩ : ∃ y r, xs.drop n ++ [fakeTail] = y :: r := exists_cons_of_ne_nil (by simp)
  have hfull : fakeHead :: (xs ++ [fakeTail]) = [] ++ fakeHead :: (xs.take n ++ y :: r) := by
    rw [← hy, ← append_assoc, take_append_drop]; rfl
  have hrest : fakeHead :: (xs.drop n ++ [fakeTail]) = [] ++ fakeHead :: y :: r := by simp [← hy]
  have hcut := hq.list.cut hfull hrest
  have hlen : (xs.take n).length = n := by simp [hn]
  have hc := hq.list.chain
  have hnd := hq.list.nodup
  rw [hfull, nil_append] at hc hnd
  have hsplit : fakeHead :: (xs.take n ++ y :: r) = (fakeHead :: (xs.take n ++ [y])) ++ r := by simp
  rw [hsplit] at hc hnd
  have hseg := hc.left_of_append
  have hsegnd := (nodup_cons.1 (nodup_append.1 hnd).1).2
  have hfirst := next_eq_head hseg (by simp)
  have hcount : q.numFreeBlocks + -(n : ℤ) = ((xs.drop n).length : ℤ) := by
    rw [hcnt, length_drop]; omega
  simp only [h0, if_false, wp_bind, wp_get]
  rw [if_neg (by omega)]
  simp only [wp_bind, wp_addNum, wp_get, hfirst]
  by_cases h1 : n = 1
  · subst h1
    obtain ⟨x, hx⟩ : ∃ x, xs.take 1 = [x] := length_eq_one_iff.1 hlen
    have hnext : q.links.next x = some y := by
      rw [hx] at hseg; exact (isChain_cons_cons.1 hseg.tail).1.1
    simp only [hx, if_true, cons_append, head_cons, wp_bind, wp_get, wp_modifyLinks, hnext, wp_pure, true_and]
    rw [hx] at hcut
    exact ⟨hcut, by simpa using hcount⟩
  simp only [h1, if_false, wp_bind]
  have hloop := popleftLoop_spec (q := { q with numFreeBlocks := q.numFreeBlocks + -(n : ℤ) }) hseg.tail hsegnd
  rw [hlen] at hloop
  refine wp_imp hloop ?_
  rintro _ _ ⟨rfl, rfl⟩
  simp only [wp_bind, wp_modifyLinks, wp_pure, true_and]
  exact ⟨hcut, hcount⟩

theorem remove_spec (hq : q.Lists xs) (hb : b ∈ xs) : wp (remove b) (fun _ q' => q'.Lists (xs.erase b)) never q := by
  obtain ⟨l, r, rfl, hl⟩ := eq_append_cons_of_mem hb
  -- the neighbours of `b`, sentinels included
  obtain ⟨m, p, hp⟩ : ∃ m p, fakeHead :: l = m ++ [p] := ⟨_, _, (dropLast_append_getLast (cons_ne_nil _ _)).symm⟩
  obtain ⟨y, r', hy⟩ : ∃ y r', r ++ [fakeTail] = y :: r' := exists_cons_of_ne_nil (by simp)
  have hxs : fakeHead :: ((l ++ b :: r) ++ [fakeTail]) = m ++ p :: b :: y :: r' := by
    rw [append_assoc, ← cons_append, hp, cons_append, hy]; simp
  have hys : fakeHead :: ((l ++ r) ++ [fakeTail]) = m ++ p :: y :: r' := by
    rw [append_assoc, ← cons_append, hp, hy]; simp
  have herase : (l ++ b :: r).erase b = l ++ r := by
    rw [erase_append_right _ hl, erase_cons_head]
  obtain ⟨h1, h2, hrest⟩ := hq.unlink hxs hys
  unfold remove
  simp only [wp_bind, wp_get, h1.2, h2.1, wp_modifyLinks, wp_addNum]
  rw [herase]
  exact hrest

variable {bs : List KVCacheBlock}

section

variable (hq : q.Lists xs) (hnd : bs.Nodup) (hfresh : ∀ b ∈ bs, b ∉ xs ∧ b ≠ fakeHead ∧ b ≠ fakeTail)

include hq hnd hfresh

/-- The link between two neighbours, and the list with `bs` between them. -/
theorem Lists.hang {ys m r : List KVCacheBlock} {p y : KVCacheBlock}
    (hxs : fakeHead :: (xs ++ [fakeTail]) = m ++ p :: y :: r)
    (hys : fakeHead :: (ys ++ [fakeTail]) = m ++ p :: (bs ++ y :: r)) : Linked q.links p y ∧
      Lists ⟨q.numFreeBlocks + bs.length, (q.links.linkAll p bs).1.link (q.links.linkAll p bs).2 y⟩ ys := by
  have hlen := congrArg length hxs
  have hlen' := congrArg length hys
  have hcount := hq.count
  simp only [length_cons, length_append, length_nil] at hlen hlen'
  refine ⟨hq.list.linked hxs, hq.list.splice hxs hys (fun b hb => ?_) hnd, ?_⟩
  · simpa [and_comm, and_left_comm, and_assoc] using hfresh b hb
  · show q.numFreeBlocks + (bs.length : ℤ) = ys.length
    omega

theorem prependN_spec : wp (prependN bs) (fun _ q' => q'.Lists (bs ++ xs)) never q := by
  unfold prependN
  by_cases h0 : bs.length = 0
  · have : bs = [] := length_eq_zero_iff.1 h0
    subst this; simpa using hq
  obtain ⟨y, r, hy⟩ : ∃ y r, xs ++ [fakeTail] = y :: r := exists_cons_of_ne_nil (by simp)
  have hxs : fakeHead :: (xs ++ [fakeTail]) = [] ++ fakeHead :: y :: r := by simp [hy]
  have hys : fakeHead :: ((bs ++ xs) ++ [fakeTail]) = [] ++ fakeHead :: (bs ++ y :: r) := by simp [← hy]
  obtain ⟨hlink, hnew⟩ := hq.hang hnd hfresh hxs hys
  simp only [h0, if_false, wp_bind, wp_get, hlink.1, wp_modifyLinks, wp_addNum]
  exact hnew

/-- The last node, and the queue with `bs` behind it. -/
theorem Lists.hangLast : ∃ p, q.links.prev fakeTail = some p ∧ Lists
    ⟨q.numFreeBlocks + bs.length, (q.links.linkAll p bs).1.link (q.links.linkAll p bs).2 fakeTail⟩ (xs ++ bs) := by
  obtain ⟨m, p, hp⟩ : ∃ m p, fakeHead :: xs = m ++ [p] := ⟨_, _, (dropLast_append_getLast (cons_ne_nil _ _)).symm⟩
  have hxs : fakeHead :: (xs ++ [fakeTail]) = m ++ p :: fakeTail :: [] := by
    rw [← cons_append, hp]; simp
  have hys : fakeHead :: ((xs ++ bs) ++ [fakeTail]) = m ++ p :: (bs ++ fakeTail :: []) := by
    rw [← cons_append, ← cons_append, hp]; simp
  obtain ⟨hlink, hnew⟩ := hq.hang hnd hfresh hxs hys
  exact ⟨p, hlink.2, hnew⟩

theorem appendN_spec : wp (appendN bs) (fun _ q' => q'.Lists (xs ++ bs)) never q := by
  unfold appendN
  by_cases h0 : bs.length = 0
  · have : bs = [] := length_eq_zero_iff.1 h0
    subst this; simpa using hq
  obtain ⟨p, hprev, hnew⟩ := hq.hangLast hnd hfresh
  simp only [h0, if_false, wp_bind, wp_get, hprev, wp_modifyLinks, wp_addNum]
  exact hnew

end

theorem append_spec (hq : q.Lists xs) (hb : b ∉ xs ∧ b ≠ fakeHead ∧ b ≠ fakeTail) :
    wp (append b) (fun _ q' => q'.Lists (xs ++ [b])) never q := by
  obtain ⟨p, hprev, hnew⟩ := hq.hangLast (nodup_singleton b) (fun x hx => mem_singleton.1 hx ▸ hb)
  unfold append
  simp only [wp_bind, wp_get, hprev, wp_modifyLinks, wp_addNum]
  exact hnew

/-! ## Runs -/

/-- The calls of the queue's methods. -/
inductive Call where
  | popleft
  | popleftN (n : ℕ)
  | remove (b : KVCacheBlock)
  | append (b : KVCacheBlock)
  | appendN (bs : List KVCacheBlock)
  | prependN (bs : List KVCacheBlock)

/-- The call, with the blocks it returns. -/
def Call.exec : Call → QueueM (List KVCacheBlock)
  | popleft => return [← FreeKVCacheBlockQueue.popleft]
  | popleftN n => FreeKVCacheBlockQueue.popleftN n
  | remove b => do FreeKVCacheBlockQueue.remove b; return []
  | append b => do FreeKVCacheBlockQueue.append b; return []
  | appendN bs => do FreeKVCacheBlockQueue.appendN bs; return []
  | prependN bs => do FreeKVCacheBlockQueue.prependN bs; return []

/-- What a call returns or raises. -/
abbrev Outcome := Except PyErr (List KVCacheBlock)

/-- The outcomes of the calls, and the queue after the last one. -/
def run (q : FreeKVCacheBlockQueue) : List Call → List Outcome × FreeKVCacheBlockQueue
  | [] => ([], q)
  | c :: calls => match c.exec q with
    | .ok ret q => (.ok ret :: (run q calls).1, (run q calls).2)
    | .error e q => (.error e :: (run q calls).1, (run q calls).2)

/-- Distinct blocks of the pool that are not among `xs`. -/
def Absent (xs bs : List KVCacheBlock) : Prop := bs.Nodup ∧ ∀ b ∈ bs, b ∉ xs ∧ b ≠ fakeHead ∧ b ≠ fakeTail

instance : Decidable (Absent xs bs) := inferInstanceAs (Decidable (_ ∧ _))

/-- The call on an abstract list of blocks, unless it removes a block that is not there or adds one that is. -/
def Call.onList (xs : List KVCacheBlock) : Call → Option (Outcome × List KVCacheBlock)
  | popleft => match xs with
    | [] => some (.error (.valueError "No free blocks available"), [])
    | b :: xs => some (.ok [b], xs)
  | popleftN n =>
    if n ≤ xs.length then some (.ok (xs.take n), xs.drop n)
    else some (.error (.assertionError "self.num_free_blocks >= n"), xs)
  | remove b => if b ∈ xs then some (.ok [], xs.erase b) else none
  | append b => if Absent xs [b] then some (.ok [], xs ++ [b]) else none
  | appendN bs => if Absent xs bs then some (.ok [], xs ++ bs) else none
  | prependN bs => if Absent xs bs then some (.ok [], bs ++ xs) else none

def runOnList (xs : List KVCacheBlock) : List Call → Option (List Outcome × List KVCacheBlock)
  | [] => some ([], xs)
  | c :: calls => do
    let (out, xs) ← c.onList xs
    let (outs, xs) ← runOnList xs calls
    return (out :: outs, xs)

variable {ys : List KVCacheBlock} {c : Call} {out : Outcome}

theorem Call.exec_spec (hq : q.Lists xs) (h : c.onList xs = some (out, ys)) : wp c.exec
    (fun ret q' => out = .ok ret ∧ q'.Lists ys) (fun e q' => out = .error e ∧ q'.Lists ys) q := by
  cases c with
  | popleft =>
    cases xs with
    | nil =>
      cases h
      have hnext : q.links.next fakeHead = some fakeTail := (hq.list.linked (l := []) (r := []) rfl).1
      have hcount : q.numFreeBlocks = 0 := hq.count
      unfold exec FreeKVCacheBlockQueue.popleft
      simp only [wp_bind, wp_get, hnext, hcount, ne_eq, not_true_eq_false, if_false, wp_throw]
      exact ⟨trivial, hq⟩
    | cons b xs =>
      cases h
      exact wp_bind.2 (wp_mono (popleft_spec hq) (fun _ _ h => ⟨by rw [h.1], h.2⟩) fun _ _ => False.elim)
  | popleftN n =>
    by_cases hn : n ≤ xs.length
    · cases (if_pos hn).symm.trans h
      exact wp_mono (popleftN_spec hq hn) (fun _ _ h => ⟨by rw [h.1], h.2⟩) fun _ _ => False.elim
    · cases (if_neg hn).symm.trans h
      have hcount := hq.count
      show wp (FreeKVCacheBlockQueue.popleftN n) _ _ q
      unfold FreeKVCacheBlockQueue.popleftN
      rw [if_neg (by omega), wp_get_bind]
      rw [if_pos (by omega)]
      exact ⟨rfl, hq⟩
  | remove b =>
    obtain ⟨hb, ⟨⟩⟩ := Option.ite_none_right_eq_some.1 h
    exact wp_bind.2 (wp_mono (remove_spec hq hb) (fun _ _ h => ⟨rfl, h⟩) fun _ _ => False.elim)
  | append b =>
    obtain ⟨hb, ⟨⟩⟩ := Option.ite_none_right_eq_some.1 h
    exact wp_bind.2 (wp_mono (append_spec hq (hb.2 b mem_cons_self)) (fun _ _ h => ⟨rfl, h⟩) fun _ _ => False.elim)
  | appendN bs =>
    obtain ⟨hb, ⟨⟩⟩ := Option.ite_none_right_eq_some.1 h
    exact wp_bind.2 (wp_mono (appendN_spec hq hb.1 hb.2) (fun _ _ h => ⟨rfl, h⟩) fun _ _ => False.elim)
  | prependN bs =>
    obtain ⟨hb, ⟨⟩⟩ := Option.ite_none_right_eq_some.1 h
    exact wp_bind.2 (wp_mono (prependN_spec hq hb.1 hb.2) (fun _ _ h => ⟨rfl, h⟩) fun _ _ => False.elim)

variable {outs : List Outcome} {calls : List Call}

theorem run_lists (hq : q.Lists xs) (h : runOnList xs calls = some (outs, ys)) :
    (q.run calls).1 = outs ∧ (q.run calls).2.Lists ys := by
  induction calls generalizing q xs outs with
  | nil => cases h; exact ⟨rfl, hq⟩
  | cons c calls ih =>
    obtain ⟨⟨out, zs⟩, hc, h⟩ := Option.bind_eq_some_iff.1 h
    obtain ⟨⟨outs', ys'⟩, hrest, heq⟩ := Option.bind_eq_some_iff.1 h
    cases heq
    unfold run
    cases hexec : c.exec q with
    | ok ret q' =>
      obtain ⟨rfl, hq'⟩ := wp_ok (Call.exec_spec hq hc) hexec
      obtain ⟨hout, hlists⟩ := ih hq' hrest
      exact ⟨congrArg _ hout, hlists⟩
    | error e q' =>
      obtain ⟨rfl, hq'⟩ := wp_error (Call.exec_spec hq hc) hexec
      obtain ⟨hout, hlists⟩ := ih hq' hrest
      exact ⟨congrArg _ hout, hlists⟩

/-- **The queue refines a list**: calls return and raise what they do on the list of the free blocks, and the links
and the counter are those of that list. -/
theorem queue_refines_list (hblocks : Absent [] bs) (h : runOnList bs calls = some (outs, xs)) :
    ((init bs).run calls).1 = outs ∧ ((init bs).run calls).2.Lists xs :=
  run_lists (init_lists hblocks.1 (fun hm => (hblocks.2 _ hm).2.1 rfl) (fun hm => (hblocks.2 _ hm).2.2 rfl)) h

theorem queue_refines_list_two :
    let q := (init [block 0, block 1]).run [.popleft, .append (block 0), .remove (block 1), .popleftN 2]
    q.1 = [.ok [block 0], .ok [], .ok [], .error (.assertionError "self.num_free_blocks >= n")] ∧ q.2.Lists [block 0] :=
  queue_refines_list (by decide) rfl

end FreeKVCacheBlockQueue

end VllmRwkv
