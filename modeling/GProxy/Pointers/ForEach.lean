import GProxy.Pointers.Refinement

/-!
# Walking a list while it is taken apart (`forEach` of `listUtils.c`)

`forEach` reads the link behind a node before it gives the node to the callback, and goes on from
what it read. So a callback may do to the node it is given what it likes, as long as the nodes
behind it stay linked: `LeavesRest`. A callback that leaves the list well formed, with the node or
without it, is `SelfRemoving`.

The callback works on a state of its own that has the memory in it. `forEach` also returns its
accesses: the nodes it read and the nodes it gave to the callback, in order.
-/

namespace GProxy.Pointers

open LinkedRing

/-- `forEach` read the links of a node, or gave it to the callback. -/
inductive Access where
  | read (p : Ptr)
  | call (p : Ptr)
  deriving DecidableEq, Repr

section

variable {σ : Type} (mem : σ → Mem) (callback : σ → Ptr → Option σ)

/-- The loop of `forEach`, `scans` calls after its start. -/
def forEachFrom (head : Ptr) (maxScans : Nat) : Nat → Ptr → Nat → σ → Option (σ × List Access)
  | 0, _, _, _ => none
  | fuel + 1, iter, scans, s =>
    if iter = head then some (s, [])
    else if maxScans ≠ 0 ∧ scans ≥ maxScans then some (s, [])
    else do
      let next ← (mem s).get (mem s).next iter
      let s ← callback s iter
      let (s, accesses) ← forEachFrom head maxScans fuel next (scans + 1) s
      some (s, .read iter :: .call iter :: accesses)

def forEach (fuel : Nat) (head : Ptr) (maxScans : Nat) (s : σ) : Option (σ × List Access) := do
  let iter ← (mem s).get (mem s).next head
  let (s, accesses) ← forEachFrom mem callback head maxScans fuel iter 0 s
  some (s, .read head :: accesses)

/-! ## The callbacks -/

/-- The nodes from some node of a list on, linked to one another and to the head. -/
def Linked (m : Mem) (head : Addr) : List Addr → Prop
  | [] => True
  | x :: post => (∀ a ∈ x :: post, m.live a = true) ∧ Path m.next x post head

/-- Given the first of the nodes not yet visited, the callback leaves those behind it linked; the
node itself it may unlink, free or link into another list. `I` is what the callback needs, and
keeps up, while there are certain nodes to visit. -/
def LeavesRest (head : Addr) (I : σ → List Addr → Prop) : Prop :=
  ∀ s x post, I s (x :: post) → Linked (mem s) head (x :: post) →
    ∃ s', callback s (some x) = some s' ∧ I s' post ∧
      ∀ y ∈ post, (mem s').live y = (mem s).live y ∧ (mem s').next y = (mem s).next y

/-- Given the first of the nodes not yet visited, the callback leaves the list well formed, as it
was or without that node; `kept` are the nodes visited that are still in it. -/
def SelfRemoving (head : Addr) (I : σ → List Addr → Prop) : Prop :=
  ∀ s kept x post, I s (x :: post) → WellFormed (mem s) head (kept ++ x :: post) →
    ∃ s', callback s (some x) = some s' ∧ I s' post ∧
      (WellFormed (mem s') head (kept ++ x :: post) ∨ WellFormed (mem s') head (kept ++ post))

end

/-- How many of `n` nodes are visited, after `scans` calls. -/
def scansLeft (maxScans scans n : Nat) : Nat :=
  if maxScans = 0 then n else min (maxScans - scans) n

/-- How many of the `n` nodes of a list are visited. -/
def scanCount (maxScans n : Nat) : Nat := if maxScans = 0 then n else min maxScans n

/-- The accesses for the nodes `xs`: each is read, then given to the callback. -/
def visits (xs : List Addr) : List Access :=
  xs.flatMap fun x => [.read (some x), .call (some x)]

/-- No node is read after it was given to the callback. -/
def NoReadAfterCall (accesses : List Access) : Prop :=
  accesses.Pairwise fun a b => ∀ p, a = .call p → b ≠ .read p

section

variable {σ : Type} {mem : σ → Mem} {callback : σ → Ptr → Option σ} {head x : Addr}
  {rest post l : List Addr} {maxScans scans : Nat} {s : σ} {m m' : Mem}

/-- No turn is left when the bound was reached. -/
theorem scansLeft_of_done (h : maxScans ≠ 0 ∧ scans ≥ maxScans) (n : Nat) :
    scansLeft maxScans scans n = 0 := by
  rw [scansLeft, if_neg h.1, Nat.sub_eq_zero_of_le h.2, Nat.zero_min]

/-- A turn is made as long as the bound was not reached and a node is left. -/
theorem scansLeft_succ (h : ¬(maxScans ≠ 0 ∧ scans ≥ maxScans)) (n : Nat) :
    scansLeft maxScans scans (n + 1) = scansLeft maxScans (scans + 1) n + 1 := by
  unfold scansLeft
  by_cases hz : maxScans = 0
  · rw [if_pos hz, if_pos hz]
  · rw [if_neg hz, if_neg hz]
    omega

/-- Each node of a list stands once, so it is read before it is given away. -/
theorem noReadAfterCall_visits (hnodup : (head :: l).Nodup) :
    NoReadAfterCall (.read (some head) :: visits l) := by
  refine List.pairwise_cons.mpr ⟨?_, List.pairwise_flatMap.mpr ⟨?_, ?_⟩⟩
  · intro b _ p heq
    cases heq
  · intro x _
    simp
  · refine (List.nodup_cons.mp hnodup).2.imp ?_
    intro x y hne
    simp [hne.symm]

/-- The pointer that is read at a node before its callback is the next node of the list, or the head
after the last. -/
theorem Linked.next_eq (h : Linked m head (x :: post)) :
    m.get m.next (some x) = some (some (post.headD head)) := by
  rw [Mem.get_some (h.1 x List.mem_cons_self), h.2.next_start]

/-- Nodes stay linked as long as they are live and their links are kept. -/
theorem Linked.tail (h : Linked m head (x :: post))
    (hsame : ∀ y ∈ post, m'.live y = m.live y ∧ m'.next y = m.next y) : Linked m' head post := by
  cases post with
  | nil => trivial
  | cons y ys =>
    obtain ⟨hlive, hpath⟩ := h
    refine ⟨fun a ha => ?_, hpath.2.congr fun c hc => (hsame c hc).2⟩
    exact (hsame a ha).1.trans (hlive a (List.mem_cons_of_mem _ ha))

/-- In a well formed list the links from any place on are in order. -/
theorem WellFormed.linked_rest (kept : List Addr) (h : WellFormed m head (kept ++ rest)) :
    Linked m head rest := by
  cases rest with
  | nil => trivial
  | cons x post =>
    refine ⟨fun a ha => ?_, (path_append_cons.mp h.forward).2⟩
    exact h.live a (List.mem_cons_of_mem _ (List.mem_append_right _ ha))

/-! ## One turn of the loop -/

/-- At the head the loop ends without an access. -/
theorem forEachFrom_head {fuel : Nat} (hfuel : 0 < fuel) :
    forEachFrom mem callback (some head) maxScans fuel (some head) scans s = some (s, []) := by
  obtain ⟨fuel, rfl⟩ := Nat.exists_eq_add_one.mpr hfuel
  exact if_pos rfl

/-- With its bound reached the loop ends at any node, without an access. -/
theorem forEachFrom_done {fuel : Nat} (hfuel : 0 < fuel) (hx : head ≠ x)
    (hdone : maxScans ≠ 0 ∧ scans ≥ maxScans) :
    forEachFrom mem callback (some head) maxScans fuel (some x) scans s = some (s, []) := by
  obtain ⟨fuel, rfl⟩ := Nat.exists_eq_add_one.mpr hfuel
  have hiter : ¬some x = some head := fun heq => hx (Option.some.inj heq).symm
  exact (if_neg hiter).trans (if_pos hdone)

/-- One turn reads the link at the node and then calls the callback, so the callback may free the
node. Then the loop goes on at what was read. -/
theorem forEachFrom_turn {fuel : Nat} {s₁ s' : σ} {accesses : List Access} (hx : head ≠ x)
    (hdone : ¬(maxScans ≠ 0 ∧ scans ≥ maxScans)) (hlinked : Linked (mem s) head (x :: post))
    (hcall : callback s (some x) = some s₁)
    (hloop : forEachFrom mem callback (some head) maxScans fuel (some (post.headD head))
      (scans + 1) s₁ = some (s', accesses)) :
    forEachFrom mem callback (some head) maxScans (fuel + 1) (some x) scans s =
      some (s', .read (some x) :: .call (some x) :: accesses) := by
  have hiter : ¬some x = some head := fun heq => hx (Option.some.inj heq).symm
  rw [forEachFrom, if_neg hiter, if_neg hdone, hlinked.next_eq, hcall]
  simp only [Option.bind_eq_bind, Option.bind_some, hloop]

/-! ## The walk -/

/-- What is left of the walk, when the nodes `rest` are left. -/
theorem forEachFrom_spec (maxScans scans : Nat) {I : σ → List Addr → Prop}
    (hcallback : LeavesRest mem callback head I) (hhead : head ∉ rest) (hI : I s rest)
    (hlinked : Linked (mem s) head rest) :
    ∃ s', (∀ fuel, rest.length < fuel →
        forEachFrom mem callback (some head) maxScans fuel (some (rest.headD head)) scans s =
          some (s', visits (rest.take (scansLeft maxScans scans rest.length)))) ∧
      I s' (rest.drop (scansLeft maxScans scans rest.length)) ∧
      Linked (mem s') head (rest.drop (scansLeft maxScans scans rest.length)) := by
  induction rest generalizing s scans with
  | nil =>
    rw [List.take_nil, List.drop_nil]
    exact ⟨s, fun fuel hfuel => forEachFrom_head hfuel, hI, trivial⟩
  | cons x post ih =>
    obtain ⟨hx, hhead⟩ := not_or.mp (List.mem_cons.not.mp hhead)
    by_cases hdone : maxScans ≠ 0 ∧ scans ≥ maxScans
    · rw [scansLeft_of_done hdone]
      exact ⟨s, fun fuel hfuel => forEachFrom_done (Nat.zero_lt_of_lt hfuel) hx hdone, hI, hlinked⟩
    · obtain ⟨s₁, hcall, hI₁, hsame⟩ := hcallback s x post hI hlinked
      obtain ⟨s', hloop, hI', hlinked'⟩ := ih (scans + 1) hhead hI₁ (hlinked.tail hsame)
      rw [List.length_cons, scansLeft_succ hdone]
      refine ⟨s', fun fuel hfuel => ?_, hI', hlinked'⟩
      obtain ⟨fuel, rfl⟩ := Nat.exists_eq_add_one.mpr (Nat.zero_lt_of_lt hfuel)
      exact forEachFrom_turn hx hdone hlinked hcall (hloop fuel (Nat.lt_of_succ_lt_succ hfuel))

/-- From a well-formed list on. -/
theorem forEach_spec {I : σ → List Addr → Prop} (hcallback : LeavesRest mem callback head I)
    (h : WellFormed (mem s) head l) (hI : I s l) (maxScans : Nat) :
    ∃ s', (∀ fuel, l.length < fuel → forEach mem callback fuel (some head) maxScans s =
        some (s', .read (some head) :: visits (l.take (scanCount maxScans l.length)))) ∧
      I s' (l.drop (scanCount maxScans l.length)) ∧
      Linked (mem s') head (l.drop (scanCount maxScans l.length)) := by
  have hlinked : Linked (mem s) head l := WellFormed.linked_rest [] h
  obtain ⟨s', hloop, hI', hlinked'⟩ :=
    forEachFrom_spec maxScans 0 hcallback h.not_mem hI hlinked
  refine ⟨s', fun fuel hfuel => ?_, hI', hlinked'⟩
  rw [forEach, Mem.get_some h.live_head, h.forward.next_start]
  simp only [Option.bind_eq_bind, Option.bind_some, hloop fuel hfuel]
  rfl

/-- The list once all but `rest` of it was visited: what is kept of the visited nodes, then
`rest`. -/
def Walked (mem : σ → Mem) (head : Addr) (l : List Addr) (s : σ) (rest : List Addr) : Prop :=
  ∃ visited kept, l = visited ++ rest ∧ kept.Sublist visited ∧
    WellFormed (mem s) head (kept ++ rest)

/-- A node with others behind it is live and linked to the first of them. -/
theorem WellFormed.next_eq (pre before behind : List Addr) {y : Addr}
    (h : WellFormed m head (pre ++ (before ++ y :: behind))) :
    m.live y = true ∧ m.next y = some (behind.headD head) := by
  rw [← List.append_assoc] at h
  have hy : y ∈ (pre ++ before) ++ y :: behind := List.mem_append_right _ List.mem_cons_self
  exact ⟨h.live y (List.mem_cons_of_mem _ hy), h.ring.neighbours.2⟩

/-- A callback that takes out the node it is given leaves the rest. -/
theorem SelfRemoving.leavesRest {I : σ → List Addr → Prop}
    (hcallback : SelfRemoving mem callback head I) (l : List Addr) :
    LeavesRest mem callback head fun s rest => I s rest ∧ Walked mem head l s rest := by
  rintro s x post ⟨hI, visited, kept, hl, hkept, hwf⟩ _
  obtain ⟨s', hcall, hI', hwf'⟩ := hcallback s kept x post hI hwf
  obtain ⟨kept', hkept', hwf'⟩ : ∃ kept', kept'.Sublist (visited ++ [x]) ∧
      WellFormed (mem s') head (kept' ++ post) := by
    rcases hwf' with hwf' | hwf'
    · refine ⟨kept ++ [x], hkept.append_right [x], ?_⟩
      rw [List.append_assoc]
      exact hwf'
    · exact ⟨kept, hkept.trans (List.sublist_append_left visited [x]), hwf'⟩
  refine ⟨s', hcall, ⟨hI', visited ++ [x], kept', ?_, hkept', hwf'⟩, fun y hy => ?_⟩
  · rw [hl, List.append_assoc]
    rfl
  · obtain ⟨before, behind, rfl⟩ := List.append_of_mem hy
    obtain ⟨hlive, hnext⟩ := WellFormed.next_eq kept (x :: before) behind hwf
    obtain ⟨hlive', hnext'⟩ := WellFormed.next_eq kept' before behind hwf'
    exact ⟨hlive'.trans hlive.symm, hnext'.trans hnext.symm⟩

/-- Where the callback leaves the list well formed, the nodes not visited are the end of the list
afterwards. -/
theorem forEach_selfRemoving {I : σ → List Addr → Prop}
    (hcallback : SelfRemoving mem callback head I) (h : WellFormed (mem s) head l) (hI : I s l)
    (maxScans : Nat) : ∃ s' kept,
      (∀ fuel, l.length < fuel → forEach mem callback fuel (some head) maxScans s =
        some (s', .read (some head) :: visits (l.take (scanCount maxScans l.length)))) ∧
      I s' (l.drop (scanCount maxScans l.length)) ∧
      kept.Sublist (l.take (scanCount maxScans l.length)) ∧
      WellFormed (mem s') head (kept ++ l.drop (scanCount maxScans l.length)) := by
  have hstart : I s l ∧ Walked mem head l s l := ⟨hI, [], [], rfl, .slnil, h⟩
  obtain ⟨s', hrun, ⟨hI', visited, kept, hl, hkept, hwf⟩, _⟩ :=
    forEach_spec (hcallback.leavesRest l) h hstart maxScans
  rw [← List.append_cancel_right ((List.take_append_drop _ l).trans hl)] at hkept
  exact ⟨s', kept, hrun, hI', hkept, hwf⟩

/-- `forEach` under any bound, on any list. It ends, and gives the first nodes of the list to the
callback, as many as the bound allows, each of them once and in order; a node is not read after
that. Where the callback leaves the nodes behind the one it is given, those not visited are linked
to one another and to the head afterwards; where it leaves the list well formed, they are the end
of the list, and before them stand visited nodes in their order. -/
theorem forEach_safe (h : WellFormed (mem s) head l) (maxScans : Nat) :
    (∀ I, LeavesRest mem callback head I → I s l → ∃ s',
      (∀ fuel, l.length < fuel → forEach mem callback fuel (some head) maxScans s =
        some (s', .read (some head) :: visits (l.take (scanCount maxScans l.length)))) ∧
      I s' (l.drop (scanCount maxScans l.length)) ∧
      Linked (mem s') head (l.drop (scanCount maxScans l.length))) ∧
    (∀ I, SelfRemoving mem callback head I → I s l → ∃ s' kept,
      (∀ fuel, l.length < fuel → forEach mem callback fuel (some head) maxScans s =
        some (s', .read (some head) :: visits (l.take (scanCount maxScans l.length)))) ∧
      I s' (l.drop (scanCount maxScans l.length)) ∧
      kept.Sublist (l.take (scanCount maxScans l.length)) ∧
      WellFormed (mem s') head (kept ++ l.drop (scanCount maxScans l.length))) ∧
    NoReadAfterCall (.read (some head) :: visits (l.take (scanCount maxScans l.length))) := by
  refine ⟨fun I hcallback hI => forEach_spec hcallback h hI maxScans,
    fun I hcallback hI => forEach_selfRemoving hcallback h hI maxScans, ?_⟩
  have hsub := List.take_sublist (scanCount maxScans l.length) l
  exact noReadAfterCall_visits (h.nodup.sublist (hsub.cons_cons head))

/-- A head at 0 and two nodes. -/
def twoNodes : Mem where
  live a := a < 3
  packet _ := none
  next a := some ((a + 1) % 3)
  prev a := some ((a + 2) % 3)
  head _ := some 0
  length _ := 2
  pktSize _ := 0

/-- The links, heads and length of the list of two nodes are in order. -/
theorem twoNodes_wellFormed : WellFormed twoNodes 0 [1, 2] where
  live := by decide
  forward := ⟨rfl, rfl, rfl⟩
  backward := ⟨rfl, rfl, rfl⟩
  nodup := by decide
  head_eq := by decide
  length_eq := rfl

/-- `removeNode` as a callback. -/
theorem removeNode_selfRemoving (head : Addr) :
    SelfRemoving id (fun m p => (removeNode m p).map Prod.fst) head fun _ _ => True := by
  intro m kept x post _ h
  exact ⟨_, congrArg (Option.map Prod.fst) (removeNode_eq h), trivial, .inr h.unlinked⟩

/-- Two nodes, of which one is to be visited and is taken out. -/
theorem forEach_safe_twoNodes : ∃ m' kept,
    (∀ fuel, 2 < fuel → forEach id (fun m p => (removeNode m p).map Prod.fst) fuel (some 0) 1
      twoNodes = some (m', [.read (some 0), .read (some 1), .call (some 1)])) ∧
    True ∧ kept.Sublist [1] ∧ WellFormed m' 0 (kept ++ [2]) :=
  have h : WellFormed (id twoNodes) 0 [1, 2] := twoNodes_wellFormed
  (forEach_safe h 1).2.1 _ (removeNode_selfRemoving 0) trivial

end

end GProxy.Pointers
