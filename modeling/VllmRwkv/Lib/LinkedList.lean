import Mathlib

/-!
# Intrusive doubly linked lists

The links of an intrusive list are two partial maps on its nodes. `DList L h t xs` says that
`xs` hangs, in this order and with both link directions agreeing, between the sentinels `h`
and `t`, and that no other node is linked.
-/

namespace LinkedList

open List Function

variable {ν : Type} [DecidableEq ν]

/-- The two link fields of every node. -/
structure Links (ν : Type) where
  prev : ν → Option ν
  next : ν → Option ν

section

variable (L : Links ν)

/-- `a.next = b; b.prev = a`. -/
def Links.link (a b : ν) : Links ν :=
  { prev := update L.prev b (some a), next := update L.next a (some b) }

/-- `a.prev = a.next = None`. -/
def Links.clear (a : ν) : Links ν :=
  { prev := update L.prev a none, next := update L.next a none }

/-- Clear every node of a list, in order. -/
def Links.clearAll (ns : List ν) : Links ν := ns.foldl Links.clear L

/-- Hang `ns` one after another behind `a`; the second component is the last node hung in. -/
def Links.linkAll (L : Links ν) (a : ν) : List ν → Links ν × ν
  | [] => (L, a)
  | n :: ns => (L.link a n).linkAll n ns

/-- Both directions of one link. -/
def Linked (a b : ν) : Prop := L.next a = some b ∧ L.prev b = some a

/-- The list `xs` hangs between the sentinels `h` and `t`, and nothing else is linked. -/
structure DList (h t : ν) (xs : List ν) : Prop where
  chain : IsChain (Linked L) (h :: (xs ++ [t]))
  nodup : (h :: (xs ++ [t])).Nodup
  prevNone : ∀ x, x ∉ xs ++ [t] → L.prev x = none
  nextNone : ∀ x, x ∉ h :: xs → L.next x = none

end

variable {L : Links ν} {h t a b : ν} {xs l r ns : List ν}

section Fields

@[simp] theorem link_next : (L.link a b).next = update L.next a (some b) := rfl

@[simp] theorem link_prev : (L.link a b).prev = update L.prev b (some a) := rfl

@[simp] theorem clear_next : (L.clear a).next = update L.next a none := rfl

@[simp] theorem clear_prev : (L.clear a).prev = update L.prev a none := rfl

@[simp] theorem clearAll_nil : L.clearAll [] = L := rfl

@[simp] theorem clearAll_cons : L.clearAll (a :: ns) = (L.clear a).clearAll ns := rfl

@[simp] theorem linkAll_nil : L.linkAll a [] = (L, a) := rfl

@[simp] theorem linkAll_cons : L.linkAll a (b :: ns) = (L.link a b).linkAll b ns := rfl

theorem clearAll_fields (x : ν) : (L.clearAll ns).next x = (if x ∈ ns then none else L.next x) ∧
    (L.clearAll ns).prev x = if x ∈ ns then none else L.prev x := by
  induction ns generalizing L with
  | nil => simp
  | cons n ns ih =>
    rw [clearAll_cons, ih.1, ih.2, clear_next, clear_prev]
    by_cases hn : x = n
    · simp [hn]
    · simp [hn]

theorem clear_link {x : ν} (hxa : x ≠ a) (hxb : x ≠ b) : (L.link a b).clear x = (L.clear x).link a b := by
  simp only [Links.link, Links.clear]
  rw [update_comm hxb.symm, update_comm hxa.symm]

/-- Hanging nodes in behind `a` changes no link of a node away from them. -/
theorem linkAll_frame (x : ν) : (x ∉ a :: ns → (L.linkAll a ns).1.next x = L.next x) ∧
      (x ∉ ns → (L.linkAll a ns).1.prev x = L.prev x) := by
  induction ns generalizing L a with
  | nil => exact ⟨fun _ => rfl, fun _ => rfl⟩
  | cons n ns ih =>
    obtain ⟨h1, h2⟩ := ih
    refine ⟨fun hx => ?_, fun hx => ?_⟩
    · rw [linkAll_cons, h1 (fun hm => hx (mem_cons_of_mem _ hm)), link_next, update_of_ne (ne_of_not_mem_cons hx)]
    · rw [linkAll_cons, h2 (fun hm => hx (mem_cons_of_mem _ hm)), link_prev, update_of_ne (ne_of_not_mem_cons hx)]

theorem linkAll_snd : (L.linkAll a ns).2 = (a :: ns).getLast (cons_ne_nil _ _) := by
  induction ns generalizing L a with
  | nil => rfl
  | cons n ns ih => rw [linkAll_cons, ih, getLast_cons (cons_ne_nil _ _)]

end Fields

/-! ## Chains of links -/

omit [DecidableEq ν] in
/-- A chain only reads `next` of its front nodes and `prev` of its back nodes. -/
theorem isChain_frame {L' : Links ν} {ns : List ν} (hc : IsChain (Linked L) ns)
    (hnext : ∀ x ∈ ns.dropLast, L'.next x = L.next x)
    (hprev : ∀ x ∈ ns.tail, L'.prev x = L.prev x) : IsChain (Linked L') ns := by
  induction ns with
  | nil => exact isChain_nil
  | cons x ns ih =>
    cases ns with
    | nil => exact isChain_singleton _
    | cons y ns =>
      rw [isChain_cons_cons] at hc ⊢
      refine ⟨⟨?_, ?_⟩, ih hc.2 ?_ ?_⟩
      · rw [hnext x (by simp), hc.1.1]
      · rw [hprev y (by simp), hc.1.2]
      · intro z hz; exact hnext z (by simp [hz])
      · intro z hz; exact hprev z (by simp only [tail_cons] at hz ⊢; exact mem_cons_of_mem _ hz)

/-- A chain stays when nodes outside it are cleared. -/
theorem isChain_clearAll (hc : IsChain (Linked L) l) (hout : ∀ x ∈ l, x ∉ ns) : IsChain (Linked (L.clearAll ns)) l := by
  refine isChain_frame hc (fun x hx => ?_) (fun x hx => ?_)
  · rw [(clearAll_fields x).1, if_neg (hout x (dropLast_subset _ hx))]
  · rw [(clearAll_fields x).2, if_neg (hout x (mem_of_mem_tail hx))]

omit [DecidableEq ν] in
theorem next_eq_head (hc : IsChain (Linked L) (a :: ns)) (hns : ns ≠ []) : L.next a = some (ns.head hns) := by
  cases ns with
  | nil => exact absurd rfl hns
  | cons n ns => exact (isChain_cons_cons.1 hc).1.1

/-- Two chains over disjoint nodes become one when their ends are linked. -/
theorem isChain_link (hl : IsChain (Linked L) (l ++ [a]))
    (hr : IsChain (Linked L) (b :: r)) (hnd : (l ++ a :: b :: r).Nodup) :
    IsChain (Linked (L.link a b)) (l ++ a :: b :: r) := by
  have hsplit : l ++ a :: b :: r = (l ++ [a]) ++ (b :: r) := by simp
  rw [hsplit] at hnd ⊢
  obtain ⟨hndl, hndr, hdis⟩ := nodup_append.1 hnd
  have hal : a ∉ l := by
    intro ha; exact (nodup_append.1 hndl).2.2 a ha a (by simp) rfl
  rw [isChain_append]
  refine ⟨?_, ?_, ?_⟩
  · refine isChain_frame hl (fun x hx => ?_) (fun x hx => ?_)
    · rw [dropLast_concat] at hx
      rw [link_next, update_of_ne]; rintro rfl; exact hal hx
    · rw [link_prev, update_of_ne]
      rintro rfl; exact hdis x (mem_of_mem_tail hx) x (by simp) rfl
  · refine isChain_frame hr (fun x hx => ?_) (fun x hx => ?_)
    · rw [link_next, update_of_ne]
      rintro rfl; exact hdis x (by simp) x (dropLast_subset _ hx) rfl
    · rw [link_prev, update_of_ne]
      rintro rfl; exact (nodup_cons.1 hndr).1 hx
  intro x hx y hy
  simp only [getLast?_append, getLast?_singleton, Option.some_or, Option.mem_def,
    Option.some.injEq, head?_cons] at hx hy
  subst hx hy
  exact ⟨by simp, by simp⟩

/-- Hanging `ns` in behind the last node of a chain extends the chain by `ns`. -/
theorem isChain_linkAll (hc : IsChain (Linked L) (l ++ [a])) (hnd : (l ++ a :: ns).Nodup) :
    IsChain (Linked (L.linkAll a ns).1) (l ++ a :: ns) := by
  induction ns generalizing L a l with
  | nil => exact hc
  | cons n ns ih =>
    have hsplit : l ++ a :: n :: ns = (l ++ [a]) ++ n :: ns := by simp
    have hstep : IsChain (Linked (L.link a n)) (l ++ a :: [n]) := by
      refine isChain_link hc (isChain_singleton _) (hnd.sublist ?_)
      exact Sublist.append_left (by simp) l
    rw [linkAll_cons, hsplit]
    refine ih ?_ (hsplit ▸ hnd)
    simpa using hstep

/-! ## Operations -/

omit [DecidableEq ν] in
/-- The right neighbour of a pair is not the head, the left one not the tail. -/
theorem mem_of_split (hxs : h :: (xs ++ [t]) = l ++ a :: b :: r) : a ∈ h :: xs ∧ b ∈ xs ++ [t] := by
  constructor
  · have := congrArg dropLast hxs
    rw [← cons_append, dropLast_concat, dropLast_append_of_ne_nil (by simp), dropLast_cons_of_ne_nil (by simp)] at this
    rw [this]; simp
  have := congrArg tail hxs
  cases l with
  | nil => simp only [tail_cons, nil_append] at this; rw [this]; simp
  | cons c l => simp only [tail_cons, cons_append] at this; rw [this]; simp

variable {ys : List ν}

omit [DecidableEq ν] in
/-- Two lists that differ by a segment between two neighbours have the same nodes but for it. -/
theorem perm_of_splits (hxs : h :: (xs ++ [t]) = l ++ a :: b :: r)
    (hys : h :: (ys ++ [t]) = l ++ a :: (ns ++ b :: r)) :
    (h :: (ys ++ [t])).Perm (ns ++ (h :: (xs ++ [t]))) ∧ ys.Perm (ns ++ xs) := by
  have hsplit : l ++ a :: (ns ++ b :: r) = (l ++ [a]) ++ (ns ++ b :: r) := by simp
  have hfull : (h :: (ys ++ [t])).Perm (ns ++ (h :: (xs ++ [t]))) := by
    rw [hys, hxs, hsplit]
    refine (perm_append_comm_assoc _ _ _).trans ?_
    simp
  have hcons : (h :: (ys ++ [t])).Perm (h :: ((ns ++ xs) ++ [t])) := by
    refine hfull.trans (perm_middle.trans ?_)
    simp
  exact ⟨hfull, (perm_append_right_iff _).1 ((perm_cons h).1 hcons)⟩

/-- **Hanging in.** Fresh nodes hung in between two neighbours become part of the list. -/
theorem DList.splice (hd : DList L h t xs)
    (hxs : h :: (xs ++ [t]) = l ++ a :: b :: r) (hys : h :: (ys ++ [t]) = l ++ a :: (ns ++ b :: r))
    (hfresh : ∀ n ∈ ns, n ∉ h :: (xs ++ [t])) (hns : ns.Nodup) :
    DList ((L.linkAll a ns).1.link (L.linkAll a ns).2 b) h t ys := by
  have hc := hd.chain
  have hnd := hd.nodup
  obtain ⟨hamem, hbmem⟩ := mem_of_split hxs
  obtain ⟨hfull, hperm⟩ := perm_of_splits hxs hys
  have hndy : (h :: (ys ++ [t])).Nodup := by
    rw [hfull.nodup_iff, nodup_append]
    exact ⟨hns, hnd, fun x hx y hy hxy => hfresh x hx (hxy ▸ hy)⟩
  -- the new nodes follow `a` up to `z`, then comes the old rest
  obtain ⟨m, hm⟩ : ∃ m, a :: ns = m ++ [(L.linkAll a ns).2] := by
    rw [linkAll_snd]; exact ⟨_, (dropLast_append_getLast _).symm⟩
  set z := (L.linkAll a ns).2 with hz
  have hzmem : z ∈ a :: ns := by rw [hm]; simp
  have hsplit : l ++ a :: (ns ++ b :: r) = (l ++ m) ++ z :: b :: r := by
    rw [← cons_append, hm]; simp
  have hsplit' : l ++ a :: b :: r = (l ++ [a]) ++ b :: r := by simp
  rw [hxs, hsplit'] at hc
  have hleft : IsChain (Linked (L.linkAll a ns).1) ((l ++ m) ++ [z]) := by
    have hnd2 : (l ++ a :: ns).Nodup := by
      rw [hys] at hndy; exact hndy.sublist (Sublist.append_left (by simp) l)
    have h2 := isChain_linkAll hc.left_of_append hnd2
    rwa [hm, ← append_assoc] at h2
  have hright : IsChain (Linked (L.linkAll a ns).1) (b :: r) := by
    have hsp : l ++ a :: (ns ++ b :: r) = l ++ ((a :: ns) ++ b :: r) := rfl
    rw [hys, hsp] at hndy
    have hdis := (nodup_append.1 (nodup_append.1 hndy).2.1).2.2
    refine isChain_frame hc.right_of_append (fun x hx => ?_) (fun x hx => ?_)
    · exact (linkAll_frame x).1 fun hm => hdis x hm x (dropLast_subset _ hx) rfl
    · exact (linkAll_frame x).2 fun hm =>
        hdis x (mem_cons_of_mem _ hm) x (mem_of_mem_tail hx) rfl
  refine ⟨?_, hndy, fun x hx => ?_, fun x hx => ?_⟩
  · rw [hys, hsplit] at hndy ⊢
    exact isChain_link hleft hright hndy
  · have hx' : x ∉ ns ∧ x ∉ xs ++ [t] := by
      simp only [mem_append, hperm.mem_iff] at hx ⊢; tauto
    have hxb : x ≠ b := by rintro rfl; exact hx'.2 hbmem
    rw [link_prev, update_of_ne hxb, (linkAll_frame x).2 hx'.1, hd.prevNone x hx'.2]
  have hx' : x ∉ ns ∧ x ∉ h :: xs := by
    simp only [mem_append, mem_cons, hperm.mem_iff] at hx ⊢; tauto
  have hxa : x ∉ a :: ns := by
    rintro hm; rcases mem_cons.1 hm with rfl | hm
    · exact hx'.2 hamem
    · exact hx'.1 hm
  have hxz : x ≠ z := by rintro rfl; exact hxa hzmem
  rw [link_next, update_of_ne hxz, (linkAll_frame x).1 hxa, hd.nextNone x hx'.2]

/-- **Cutting out.** A segment between two neighbours is taken out by clearing its nodes and
linking the neighbours. -/
theorem DList.cut (hd : DList L h t xs)
    (hxs : h :: (xs ++ [t]) = l ++ a :: (ns ++ b :: r)) (hys : h :: (ys ++ [t]) = l ++ a :: b :: r) :
    DList ((L.clearAll ns).link a b) h t ys := by
  have hc := hd.chain
  have hnd := hd.nodup
  obtain ⟨hamem, hbmem⟩ := mem_of_split hys
  obtain ⟨hfull, hperm⟩ := perm_of_splits hys hxs
  obtain ⟨-, hndy, hdis⟩ := nodup_append.1 (hfull.nodup_iff.1 hnd)
  have hout : ∀ x ∈ (l ++ [a]) ++ b :: r, x ∉ ns := by
    intro x hx hm
    rw [hys] at hdis
    exact hdis x hm x (by simpa using hx) rfl
  have hsplit : l ++ a :: (ns ++ b :: r) = (l ++ [a]) ++ (ns ++ (b :: r)) := by simp
  rw [hxs, hsplit] at hc
  refine ⟨?_, hndy, fun x hx => ?_, fun x hx => ?_⟩
  · rw [hys] at hndy ⊢
    refine isChain_link (isChain_clearAll hc.left_of_append ?_) (isChain_clearAll hc.right_of_append.right_of_append ?_) hndy
    · exact fun x hx => hout x (mem_append_left _ hx)
    · exact fun x hx => hout x (mem_append_right _ hx)
  · have hxb : x ≠ b := by rintro rfl; exact hx hbmem
    rw [link_prev, update_of_ne hxb, (clearAll_fields x).2]
    split_ifs with hxn
    · rfl
    · refine hd.prevNone x ?_
      simp only [mem_append, hperm.mem_iff] at hx ⊢; tauto
  · have hxa : x ≠ a := by rintro rfl; exact hx hamem
    rw [link_next, update_of_ne hxa, (clearAll_fields x).1]
    split_ifs with hxn
    · rfl
    · refine hd.nextNone x ?_
      simp only [mem_append, mem_cons, hperm.mem_iff] at hx ⊢; tauto

/-- **Building.** Distinct nodes hung in one after another between fresh sentinels. -/
theorem dlist_linkAll (hnone : ∀ x, L.prev x = none ∧ L.next x = none) (hnd : (h :: (ns ++ [t])).Nodup) :
    DList ((L.linkAll h ns).1.link (L.linkAll h ns).2 t) h t ns := by
  obtain ⟨m, hm⟩ : ∃ m, h :: ns = m ++ [(L.linkAll h ns).2] := by
    rw [linkAll_snd]; exact ⟨_, (dropLast_append_getLast _).symm⟩
  have hzmem : (L.linkAll h ns).2 ∈ h :: ns := by rw [hm]; simp
  refine ⟨?_, hnd, fun x hx => ?_, fun x hx => ?_⟩
  · have hleft : IsChain (Linked (L.linkAll h ns).1) (h :: ns) := isChain_linkAll (l := []) (isChain_singleton h)
        (hnd.sublist (by simp))
    rw [← cons_append, hm, append_assoc] at hnd ⊢
    rw [hm] at hleft
    exact isChain_link hleft (isChain_singleton t) hnd
  · have hxt : x ≠ t := by rintro rfl; exact hx (by simp)
    rw [link_prev, update_of_ne hxt, (linkAll_frame x).2 (fun hm => hx (mem_append_left _ hm)), (hnone x).1]
  · have hxz : x ≠ (L.linkAll h ns).2 := by rintro rfl; exact hx hzmem
    rw [link_next, update_of_ne hxz, (linkAll_frame x).1 hx, (hnone x).2]

omit [DecidableEq ν] in
/-- Neighbours in the list are linked both ways. -/
theorem DList.linked (hd : DList L h t xs) (hxs : h :: (xs ++ [t]) = l ++ a :: b :: r) :
    L.next a = some b ∧ L.prev b = some a := by
  have hc := hd.chain
  rw [hxs] at hc
  exact (isChain_cons_cons.1 hc.right_of_append).1

end LinkedList
