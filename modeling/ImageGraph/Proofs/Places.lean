import ImageGraph.Proofs.Linearity

/-!
Places in a heap. A place tells which input to take at each node on the way from a root. If the
handle of a node is made use of once, there is one place where the node is found, so what is set at
the node is seen there and nowhere else.
-/

set_option autoImplicit false

namespace ImageGraph

/-- An element that is in one of many lists once has one index there. -/
theorem same_index {Item : Type} {items : List Item} {elements : Item → List Address}
    {address : Address} (once : (items.flatMap elements).count address = 1) {first second : Nat}
    {item other : Item} (isItem : items[first]? = some item) (member : address ∈ elements item)
    (isOther : items[second]? = some other) (memberOther : address ∈ elements other) :
    first = second := by
  have apart {low high : Nat} {lower higher : Item} (less : low < high)
      (isLower : items[low]? = some lower) (inLower : address ∈ elements lower)
      (isHigher : items[high]? = some higher) (inHigher : address ∈ elements higher) : False := by
    have before : address ∈ (items.take high).flatMap elements := by
      refine List.mem_flatMap.2 ⟨lower, ?_, inLower⟩
      apply List.mem_of_getElem?
      rw [List.getElem?_take_of_lt less, isLower]
    have behind : address ∈ (items.drop high).flatMap elements := by
      refine List.mem_flatMap.2 ⟨higher, ?_, inHigher⟩
      apply List.mem_of_getElem?
      rw [List.getElem?_drop, Nat.add_zero, isHigher]
    have split : items.flatMap elements =
        (items.take high).flatMap elements ++ (items.drop high).flatMap elements := by
      rw [← List.flatMap_append, List.take_append_drop]
    rw [split, List.count_append] at once
    have atLeast := List.one_le_count_iff.2 before
    have atLeastBehind := List.one_le_count_iff.2 behind
    omega
  rcases Nat.lt_trichotomy first second with less | same | more
  · exact (apart less isItem member isOther memberOther).elim
  · exact same
  · exact (apart more isOther memberOther isItem member).elim

namespace Heap

def input? (heap : Heap) (address : Address) (index : Nat) : Option Address :=
  heap[address]?.bind fun node => node.inputs[index]?

def follow (heap : Heap) (root : Address) (place : List Nat) : Option Address :=
  place.foldlM heap.input? root

def settingsAt? (heap : Heap) (root : Address) (place : List Nat) : Option Settings :=
  (heap.follow root place).bind fun address => heap[address]?.map Node.settings

def change (heap : Heap) (address : Address) (settings : Settings) : Heap :=
  heap.modify address fun node => { node with settings }

variable {heap : Heap} {root address above below other : Address} {index : Nat} {place : List Nat}

theorem input_parts (isInput : heap.input? above index = some address) :
    ∃ node, heap[above]? = some node ∧ node.inputs[index]? = some address :=
  Option.bind_eq_some_iff.1 isInput

theorem mem_uses (isInput : heap.input? above index = some address) :
    address ∈ heap.flatMap Node.inputs := by
  obtain ⟨node, isNode, isInput⟩ := input_parts isInput
  exact List.mem_flatMap.2 ⟨node, List.mem_of_getElem? isNode, List.mem_of_getElem? isInput⟩

theorem input_of_used (used : address ∈ heap.flatMap Node.inputs) :
    ∃ above index, heap.input? above index = some address := by
  obtain ⟨node, isNode, isInput⟩ := List.mem_flatMap.1 used
  obtain ⟨above, isAbove⟩ := List.mem_iff_getElem?.1 isNode
  obtain ⟨index, isIndex⟩ := List.mem_iff_getElem?.1 isInput
  refine ⟨above, index, ?_⟩
  rw [input?, isAbove]
  exact isIndex

theorem input_unique (once : (heap.flatMap Node.inputs).count address = 1) {last : Nat}
    (isInput : heap.input? above index = some address)
    (isAlso : heap.input? other last = some address) : above = other ∧ index = last := by
  obtain ⟨node, isNode, within⟩ := input_parts isInput
  obtain ⟨present, isPresent, withinPresent⟩ := input_parts isAlso
  obtain rfl := same_index once isNode (List.mem_of_getElem? within) isPresent
    (List.mem_of_getElem? withinPresent)
  cases isNode.symm.trans isPresent
  refine ⟨rfl, ?_⟩
  have part : node.inputs.Sublist (heap.flatMap Node.inputs) :=
    List.sublist_flatten_of_mem (List.mem_map_of_mem (List.mem_of_getElem? isNode))
  have atMost := part.count_le address
  have atLeast := List.one_le_count_iff.2 (List.mem_of_getElem? within)
  have single : (node.inputs.flatMap fun input => [input]).count address = 1 := by
    rw [List.flatMap_singleton']
    omega
  exact same_index single within List.mem_cons_self withinPresent List.mem_cons_self

theorem follow_cons (isInput : heap.input? root index = some below) (place : List Nat) :
    heap.follow root (index :: place) = heap.follow below place := by
  unfold follow
  rw [List.foldlM_cons, isInput]
  rfl

theorem follow_absent (absent : heap.input? root index = none) (place : List Nat) :
    heap.follow root (index :: place) = none := by
  unfold follow
  rw [List.foldlM_cons, absent]
  rfl

theorem follow_le (grounded : heap.Grounded) (found : heap.follow root place = some below) :
    below ≤ root := by
  induction place generalizing root with
  | nil =>
      cases found
      exact Nat.le_refl _
  | cons index place induction =>
      cases isInput : heap.input? root index with
      | none =>
          rw [follow_absent isInput] at found
          cases found
      | some input =>
          rw [follow_cons isInput] at found
          obtain ⟨node, isNode, within⟩ := input_parts isInput
          have less := grounded root node isNode input (List.mem_of_getElem? within)
          exact Nat.le_trans (induction found) (Nat.le_of_lt less)

theorem follow_snoc (heap : Heap) (root : Address) (place : List Nat) (index : Nat) :
    heap.follow root (place ++ [index]) =
      (heap.follow root place).bind fun above => heap.input? above index := by
  rw [follow, List.foldlM_append]
  simp [follow]

theorem input_change (heap : Heap) (address : Address) (settings : Settings) :
    (heap.change address settings).input? = heap.input? := by
  funext above index
  rw [input?, input?, change, List.getElem?_modify]
  cases heap[above]? with
  | none => rfl
  | some node => by_cases same : address = above <;> simp [same]

theorem follow_change (heap : Heap) (root address : Address) (settings : Settings)
    (place : List Nat) : (heap.change address settings).follow root place = heap.follow root place := by
  rw [follow, input_change, follow]

theorem settings_change_other (apart : heap.follow root place ≠ some address)
    (settings : Settings) :
    (heap.change address settings).settingsAt? root place = heap.settingsAt? root place := by
  rw [settingsAt?, settingsAt?, follow_change]
  cases found : heap.follow root place with
  | none => rfl
  | some other =>
      have different : address ≠ other := by
        intro same
        rw [same] at apart
        exact apart found
      rw [Option.bind_some, Option.bind_some, change, List.getElem?_modify_ne _ _ different]

end Heap

/-- What has been built between two heaps is found from a root: each new node is made use of once, and
what was there before is made use of for handles that were held. -/
structure Linear (heap : Heap) (held : List Address) (after : Heap) (root : Address) : Prop where
  grows : heap <+: after
  grounded : after.Grounded
  root_lt : root < after.length
  /-- Every new node is one input of one node, and only the root is none. -/
  used : ∀ address, heap.length ≤ address → address < after.length →
    (after.flatMap Node.inputs).count address = if address = root then 0 else 1
  /-- What was there before is an input of new nodes, or the root, as often as its handle was held. -/
  entered : ∀ address, address < heap.length →
    ((after.drop heap.length).flatMap Node.inputs ++ [root]).count address = held.count address

variable {heap after : Heap} {held : List Address} {root address : Address}

theorem Ledger.linear (ledger : Ledger heap held after {root})
    (below : ∀ address ∈ held, address < heap.length) (grounded : heap.Grounded) :
    Linear heap held after root := by
  have total := ledger.grounded (fun address member => below address member) grounded
  have root_lt := ledger.kept_lt (fun address member => below address member) root
    (Multiset.mem_singleton_self root)
  obtain ⟨new, rfl, balanced⟩ := ledger.balanced
  have counted (address : Address) :
      (new.flatMap Node.inputs).count address + [root].count address =
        held.count address + (List.range' heap.length new.length).count address := by
    have counts := congrArg (Multiset.count address) balanced
    simpa only [Multiset.count_add, Multiset.coe_count, ← Multiset.coe_singleton] using counts
  refine ⟨List.prefix_append heap new, total, root_lt, ?_, ?_⟩
  · intro address atLeast before
    rw [List.length_append] at before
    have unused : (heap.flatMap Node.inputs).count address = 0 := by
      apply List.count_eq_zero.2
      intro used
      obtain ⟨above, index, isInput⟩ := Heap.input_of_used used
      obtain ⟨node, isNode, within⟩ := Heap.input_parts isInput
      have less := grounded above node isNode address (List.mem_of_getElem? within)
      have bound := (List.getElem?_eq_some_iff.1 isNode).1
      exact Nat.not_lt.2 atLeast (Nat.lt_trans less bound)
    have notHeld : held.count address = 0 :=
      List.count_eq_zero.2 fun isHeld => Nat.not_lt.2 atLeast (below address isHeld)
    have isNew : (List.range' heap.length new.length).count address = 1 :=
      List.count_eq_one_of_mem (List.nodup_range' 1) (List.mem_range'_1.2 ⟨atLeast, before⟩)
    have balance := counted address
    rw [notHeld, isNew, List.count_singleton] at balance
    rw [List.flatMap_append, List.count_append, unused, Nat.zero_add]
    by_cases isRoot : address = root
    · rw [if_pos isRoot]
      rw [isRoot, beq_self_eq_true, if_pos rfl] at balance
      rw [isRoot]
      omega
    · rw [if_neg isRoot]
      have other : (root == address) = false := beq_eq_false_iff_ne.2 (Ne.symm isRoot)
      rw [other] at balance
      exact balance
  · intro address before
    have notNew : (List.range' heap.length new.length).count address = 0 := by
      apply List.count_eq_zero.2
      intro isNew
      exact Nat.not_lt.2 (List.mem_range'_1.1 isNew).1 before
    rw [List.drop_left, List.count_append, counted, notNew, Nat.add_zero]

namespace Linear

theorem follow_lt (linear : Linear heap held after root) {place : List Nat}
    (found : after.follow root place = some address) : address < after.length :=
  Nat.lt_of_le_of_lt (Heap.follow_le linear.grounded found) linear.root_lt

theorem has_user (linear : Linear heap held after root) (atLeast : heap.length ≤ address)
    (before : address < after.length) (other : address ≠ root) :
    ∃ above index, after.input? above index = some address ∧ address < above ∧
      above < after.length := by
  have once := linear.used address atLeast before
  rw [if_neg other] at once
  obtain ⟨above, index, isInput⟩ :=
    Heap.input_of_used (List.one_le_count_iff.1 (Nat.le_of_eq once.symm))
  obtain ⟨node, isNode, within⟩ := Heap.input_parts isInput
  exact ⟨above, index, isInput,
    linear.grounded above node isNode address (List.mem_of_getElem? within),
    (List.getElem?_eq_some_iff.1 isNode).1⟩

/-- Every new node is found at one place. -/
theorem found_once (linear : Linear heap held after root) (atLeast : heap.length ≤ address)
    (before : address < after.length) :
    ∃ place, after.follow root place = some address ∧
      ∀ other, after.follow root other = some address → other = place := by
  -- The node that makes use of it is behind it, so the induction is on how many nodes are.
  induction behind : after.length - address using Nat.strong_induction_on generalizing address with
  | _ behind induction =>
      have used := linear.used address atLeast before
      by_cases isRoot : address = root
      · subst isRoot
        rw [if_pos rfl] at used
        refine ⟨[], rfl, ?_⟩
        intro other found
        rcases List.eq_nil_or_concat' other with rfl | ⟨front, last, rfl⟩
        · rfl
        · rw [Heap.follow_snoc] at found
          obtain ⟨above, -, isInput⟩ := Option.bind_eq_some_iff.1 found
          exact absurd (Heap.mem_uses isInput) (List.count_eq_zero.1 used)
      · obtain ⟨above, index, isInput, less, bound⟩ := linear.has_user atLeast before isRoot
        rw [if_neg isRoot] at used
        obtain ⟨place, isPlace, only⟩ :=
          induction (after.length - above) (behind ▸ Nat.sub_lt_sub_left before less)
            (Nat.le_trans atLeast (Nat.le_of_lt less)) bound rfl
        refine ⟨place ++ [index], ?_, ?_⟩
        · rw [Heap.follow_snoc, isPlace]
          exact isInput
        · intro other found
          rcases List.eq_nil_or_concat' other with rfl | ⟨front, last, rfl⟩
          · exact absurd (Option.some.inj found).symm isRoot
          · rw [Heap.follow_snoc] at found
            obtain ⟨user, isUser, isAlso⟩ := Option.bind_eq_some_iff.1 found
            obtain ⟨rfl, rfl⟩ := Heap.input_unique used isInput isAlso
            rw [only front isUser]

theorem seen_once (linear : Linear heap held after root) (atLeast : heap.length ≤ address)
    (before : address < after.length) :
    ∃ place, after.follow root place = some address ∧
      (∀ other, after.follow root other = some address → other = place) ∧
      ∀ other, other ≠ place → ∀ settings,
        (after.change address settings).settingsAt? root other = after.settingsAt? root other := by
  obtain ⟨place, isPlace, only⟩ := linear.found_once atLeast before
  refine ⟨place, isPlace, only, ?_⟩
  intro other different settings
  apply Heap.settings_change_other
  intro found
  exact different (only other found)

end Linear

end ImageGraph
