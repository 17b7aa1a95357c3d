import ImageGraph.Proofs.Catalog
import ImageGraph.Proofs.Places

/-!
Aliasing. An image that is put into a store has an address at each place. Its places share an address
exactly if they share a node in the heap from which the image is read off. So the addresses that a
session gives afterwards tell the same images apart that evaluation has built as different nodes.
-/

set_option autoImplicit false

namespace ImageGraph

namespace Image

def partAt? (image : Image) (place : List Nat) : Option Image :=
  place.foldlM (fun part index => part.inputs[index]?) image

def addressAt? (image : Image) (place : List Nat) : Option Address :=
  (image.partAt? place).bind address?

/-- The store that an input finds when images are settled one after the other. -/
def storeBefore (images : List Image) (store : Store) (index : Nat) : Store :=
  (settleAll (images.take index) store).2

theorem settle_all_append (images others : List Image) (store : Store) :
    (settleAll (images ++ others) store).2 = (settleAll others (settleAll images store).2).2 := by
  induction images generalizing store with
  | nil => rfl
  | cons image images induction => exact induction (image.settle store).2

variable {images : List Image} {image settled : Image} {store : Store} {index later : Nat}

theorem size_store_before_le (images : List Image) (store : Store) (order : index ≤ later) :
    (storeBefore images store index).size ≤ (storeBefore images store later).size := by
  obtain ⟨more, rfl⟩ := Nat.exists_eq_add_of_le order
  unfold storeBefore
  rw [List.take_add, settle_all_append]
  exact size_le_settle_all _ _

theorem store_before_le_settle_all (images : List Image) (store : Store) (index : Nat) :
    (storeBefore images store index).size ≤ (settleAll images store).2.size := by
  have all : (settleAll images store).2 =
      (settleAll (images.drop index) (storeBefore images store index)).2 := by
    unfold storeBefore
    rw [← settle_all_append, List.take_append_drop]
  rw [all]
  exact size_le_settle_all _ _

theorem settled_at (isInput : images[index]? = some image) :
    (settleAll images store).1[index]? = some (image.settle (storeBefore images store index)).1 ∧
      (image.settle (storeBefore images store index)).2 = storeBefore images store (index + 1) := by
  induction images generalizing store index with
  | nil => cases isInput
  | cons first others induction =>
      cases index with
      | zero =>
          cases isInput
          exact ⟨rfl, rfl⟩
      | succ index => exact induction isInput

theorem address_at_cons (input : image.inputs[index]? = some settled) (place : List Nat) :
    image.addressAt? (index :: place) = settled.addressAt? place := by
  unfold addressAt? partAt?
  rw [List.foldlM_cons, input]
  rfl

theorem address_at_absent (absent : image.inputs[index]? = none) (place : List Nat) :
    image.addressAt? (index :: place) = none := by
  unfold addressAt? partAt?
  rw [List.foldlM_cons, absent]
  rfl

/-! A loose image takes the address behind those of its inputs. -/

section Loose

variable {settings : Settings}

theorem size_settle (loose : image.home = .loose settings) (store : Store) :
    (image.settle store).2.size = (settleAll image.inputs store).2.size + 1 := by
  rw [settle_loose image store loose, Array.size_push]

theorem address_settle (loose : image.home = .loose settings) (store : Store) :
    (image.settle store).1.addressAt? [] = some (settleAll image.inputs store).2.size := by
  apply (address_eq_some _ _).2
  rw [settle_loose image store loose, home_move_to]

theorem inputs_settle (loose : image.home = .loose settings) (store : Store) :
    (image.settle store).1.inputs = (settleAll image.inputs store).1 := by
  rw [settle_loose image store loose, inputs_move_to,
    inputs_with_inputs image _ (length_settle_all image.inputs store)]

theorem input_address_settle (loose : image.home = .loose settings) {input : Image}
    (isInput : image.inputs[index]? = some input) (store : Store) (place : List Nat) :
    (image.settle store).1.addressAt? (index :: place) =
      (input.settle (storeBefore image.inputs store index)).1.addressAt? place := by
  apply address_at_cons
  rw [inputs_settle loose]
  exact (settled_at isInput).1

theorem absent_address_settle (loose : image.home = .loose settings)
    (absent : image.inputs[index]? = none) (store : Store) (place : List Nat) :
    (image.settle store).1.addressAt? (index :: place) = none := by
  apply address_at_absent
  rw [inputs_settle loose]
  apply List.getElem?_eq_none
  rw [length_settle_all]
  exact List.getElem?_eq_none_iff.1 absent

theorem store_before_lt_settle (loose : image.home = .loose settings) (store : Store)
    (index : Nat) : (storeBefore image.inputs store index).size < (image.settle store).2.size := by
  rw [size_settle loose]
  exact Nat.lt_succ_of_le (store_before_le_settle_all image.inputs store index)

end Loose

end Image

namespace Heap

variable {heap : Heap} {limit root : Address}

theorem Shows.input {image : Image} (shows : heap.Shows limit root image) (index : Nat) :
    heap.input? root index = none ∧ image.inputs[index]? = none ∨
      ∃ below input, heap.input? root index = some below ∧ image.inputs[index]? = some input ∧
        heap.Shows limit below input := by
  cases shows with
  | @node _ node _ isNode kind resolution home count inputs =>
      unfold Heap.input?
      rw [isNode, Option.bind_some]
      by_cases within : index < node.inputs.length
      · have alsoWithin : index < image.inputs.length := count ▸ within
        refine .inr ⟨node.inputs[index], image.inputs[index], List.getElem?_eq_getElem within,
          List.getElem?_eq_getElem alsoWithin, ?_⟩
        apply inputs
        apply List.mem_of_getElem? (i := index)
        rw [List.getElem?_zip_eq_some]
        exact ⟨List.getElem?_eq_getElem within, List.getElem?_eq_getElem alsoWithin⟩
      · rw [Nat.not_lt] at within
        exact .inl ⟨List.getElem?_eq_none within, List.getElem?_eq_none (count ▸ within)⟩

end Heap

/-- The address that stands at a place, given the node that is found there: an old node keeps its own,
and a new one has got one of those that have been added to the store. -/
inductive Stands (limit : Address) (store after : Store) : Option Address → Option Address → Prop where
  | absent : Stands limit store after none none
  | old {address : Address} (before : address < limit) :
      Stands limit store after (some address) (some address)
  | new {node address : Address} (behind : limit ≤ node) (atLeast : store.size ≤ address)
      (below : address < after.size) : Stands limit store after (some node) (some address)

theorem Stands.widen {limit : Address} {store after first last : Store} {node address : Option Address}
    (stands : Stands limit store after node address) (grows : first.size ≤ store.size)
    (growsOn : after.size ≤ last.size) : Stands limit first last node address := by
  cases stands with
  | absent => exact .absent
  | old before => exact .old before
  | new behind atLeast below =>
      exact .new behind (Nat.le_trans grows atLeast) (Nat.lt_of_lt_of_le below growsOn)

theorem Stands.of_same_address {limit : Address} {store after : Store}
    {node other address : Option Address} (first : Stands limit store after node address)
    (second : Stands limit store after other address) (above : limit ≤ store.size) :
    node = other ∨ ∃ new another, node = some new ∧ other = some another ∧ limit ≤ new ∧
      limit ≤ another := by
  cases first with
  | absent =>
      cases second with
      | absent => exact .inl rfl
  | old before =>
      cases second with
      | old _ => exact .inl rfl
      | new _ atLeast _ => exact absurd before (Nat.not_lt.2 (Nat.le_trans above atLeast))
  | new behind atLeast below =>
      cases second with
      | old before => exact absurd before (Nat.not_lt.2 (Nat.le_trans above atLeast))
      | new otherBehind _ _ => exact .inr ⟨_, _, rfl, rfl, behind, otherBehind⟩

theorem Stands.of_same_node {limit : Address} {store after : Store}
    {node address other : Option Address} (first : Stands limit store after node address)
    (second : Stands limit store after node other) :
    address = other ∨ ∃ new, node = some new ∧ limit ≤ new := by
  cases first with
  | absent =>
      cases second with
      | absent => exact .inl rfl
  | old before =>
      cases second with
      | old _ => exact .inl rfl
      | new behind _ _ => exact .inr ⟨_, rfl, behind⟩
  | new behind _ _ => exact .inr ⟨_, rfl, behind⟩

namespace Heap.Shows

variable {heap : Heap} {limit root : Address} {image : Image} {store : Store}

theorem root_lt (shows : heap.Shows limit root image) : root < heap.length := by
  cases shows with
  | node isNode => exact (List.getElem?_eq_some_iff.1 isNode).1

theorem stored_home (shows : heap.Shows limit root image) (before : root < limit) :
    image.home = .stored root := by
  cases shows with
  | node isNode kind resolution home => rw [home, if_pos before]

theorem loose_home (shows : heap.Shows limit root image) (behind : ¬root < limit) :
    ∃ settings, image.home = .loose settings := by
  cases shows with
  | node isNode kind resolution home => exact ⟨_, by rw [home, if_neg behind]⟩

theorem old_addresses (shows : heap.Shows limit root image) (grounded : heap.Grounded)
    (before : root < limit) (place : List Nat) :
    image.addressAt? place = heap.follow root place := by
  induction place generalizing root image with
  | nil => exact (image.address_eq_some root).2 (shows.stored_home before)
  | cons index place induction =>
      rcases shows.input index with ⟨unused, absent⟩ | ⟨below, input, isBelow, isInput, inputShows⟩
      · rw [Image.address_at_absent absent, Heap.follow_absent unused]
      · have found : heap.follow root [index] = some below := Heap.follow_cons isBelow []
        have atMost := Heap.follow_le grounded found
        rw [Image.address_at_cons isInput, Heap.follow_cons isBelow]
        exact induction inputShows (Nat.lt_of_le_of_lt atMost before)

/-- At every place of the image that is put into a store stands what is found there in the heap. -/
theorem stands (shows : heap.Shows limit root image) (grounded : heap.Grounded) (store : Store)
    (place : List Nat) :
    Stands limit store (image.settle store).2 (heap.follow root place)
      ((image.settle store).1.addressAt? place) := by
  induction place generalizing root image store with
  | nil =>
      by_cases before : root < limit
      · rw [image.settle_stored store (shows.stored_home before),
          shows.old_addresses grounded before]
        exact .old before
      · obtain ⟨settings, loose⟩ := shows.loose_home before
        rw [Image.address_settle loose]
        refine .new (Nat.not_lt.1 before) (Image.size_le_settle_all image.inputs store) ?_
        rw [Image.size_settle loose]
        exact Nat.lt_succ_self _
  | cons index place induction =>
      by_cases before : root < limit
      · rw [image.settle_stored store (shows.stored_home before),
          shows.old_addresses grounded before]
        cases found : heap.follow root (index :: place) with
        | none => exact .absent
        | some below => exact .old (Nat.lt_of_le_of_lt (Heap.follow_le grounded found) before)
      · obtain ⟨settings, loose⟩ := shows.loose_home before
        rcases shows.input index with ⟨unused, absent⟩ | ⟨below, input, isBelow, isInput, inputShows⟩
        · rw [Heap.follow_absent unused, Image.absent_address_settle loose absent]
          exact .absent
        · rw [Heap.follow_cons isBelow, Image.input_address_settle loose isInput]
          refine (induction inputShows _).widen ?_ ?_
          · exact Image.size_le_settle_all _ store
          · rw [(Image.settled_at isInput).2]
            exact Nat.le_of_lt (Image.store_before_lt_settle loose store (index + 1))

/-- A new node is found below an input of a new image, and has got an address among those that the
input takes. -/
structure NewBelow (heap : Heap) (limit root : Address) (image : Image) (store : Store) (index : Nat)
    (place : List Nat) (node below : Address) (input : Image) (address : Address) : Prop where
  isBelow : heap.input? root index = some below
  isInput : image.inputs[index]? = some input
  showsInput : heap.Shows limit below input
  found : heap.follow below place = some node
  within : (input.settle (Image.storeBefore image.inputs store index)).1.addressAt? place =
    some address
  isAddress : (image.settle store).1.addressAt? (index :: place) = some address
  atLeast : (Image.storeBefore image.inputs store index).size ≤ address
  less : address < (Image.storeBefore image.inputs store (index + 1)).size

theorem new_below {settings : Settings} {index : Nat} {place : List Nat} {node : Address}
    (shows : heap.Shows limit root image) (grounded : heap.Grounded)
    (loose : image.home = .loose settings) (found : heap.follow root (index :: place) = some node)
    (behind : limit ≤ node) :
    ∃ below input address, NewBelow heap limit root image store index place node below input address := by
  rcases shows.input index with ⟨unused, absent⟩ | ⟨below, input, isBelow, isInput, inputShows⟩
  · rw [Heap.follow_absent unused] at found
    cases found
  · rw [Heap.follow_cons isBelow] at found
    have stands := inputShows.stands grounded (Image.storeBefore image.inputs store index) place
    rw [found, (Image.settled_at isInput).2] at stands
    cases within : (input.settle (Image.storeBefore image.inputs store index)).1.addressAt? place with
    | none =>
        rw [within] at stands
        cases stands
    | some address =>
        rw [within] at stands
        have isAddress := Image.input_address_settle loose isInput store place
        rw [within] at isAddress
        cases stands with
        | old before => exact absurd before (Nat.not_lt.2 behind)
        | new _ atLeast less =>
            exact ⟨below, input, address, isBelow, isInput, inputShows, found, within, isAddress,
              atLeast, less⟩

theorem NewBelow.root_apart {settings : Settings} {index : Nat} {place : List Nat}
    {node below address : Address} {input : Image}
    (under : NewBelow heap limit root image store index place node below input address)
    (loose : image.home = .loose settings) :
    (image.settle store).1.addressAt? [] ≠ (image.settle store).1.addressAt? (index :: place) := by
  rw [Image.address_settle loose, under.isAddress]
  intro same
  have less := Nat.lt_of_lt_of_le under.less (Image.store_before_le_settle_all image.inputs store _)
  exact Nat.ne_of_gt less (Option.some.inj same)

theorem NewBelow.index_le {index later : Nat} {place rest : List Nat}
    {node other below lower address : Address} {input present : Image}
    (under : NewBelow heap limit root image store index place node below input address)
    (also : NewBelow heap limit root image store later rest other lower present address) :
    index ≤ later := by
  by_contra more
  have order : later + 1 ≤ index := Nat.lt_of_not_le more
  have atMost := Nat.le_trans (Image.size_store_before_le image.inputs store order) under.atLeast
  exact Nat.not_le.2 also.less atMost

/-- New nodes at two places do not get the same address. -/
theorem new_apart (shows : heap.Shows limit root image) (grounded : heap.Grounded)
    {first second : List Nat} {node other : Address}
    (found : heap.follow root first = some node) (behind : limit ≤ node)
    (foundOther : heap.follow root second = some other) (otherBehind : limit ≤ other)
    (same : (image.settle store).1.addressAt? first = (image.settle store).1.addressAt? second) :
    first = second := by
  induction first generalizing root image store second with
  | nil =>
      cases found
      obtain ⟨settings, loose⟩ := shows.loose_home (Nat.not_lt.2 behind)
      cases second with
      | nil => rfl
      | cons later rest =>
          obtain ⟨_, _, _, under⟩ := shows.new_below grounded loose foundOther otherBehind
          exact absurd same (under.root_apart loose)
  | cons index place induction =>
      have notBefore : ¬root < limit := by
        intro before
        exact Nat.not_lt.2 behind (Nat.lt_of_le_of_lt (Heap.follow_le grounded found) before)
      obtain ⟨settings, loose⟩ := shows.loose_home notBefore
      obtain ⟨below, input, address, under⟩ := shows.new_below grounded loose found behind
      cases second with
      | nil => exact absurd same.symm (under.root_apart loose)
      | cons later rest =>
          obtain ⟨lower, present, own, also⟩ := shows.new_below grounded loose foundOther otherBehind
          rw [under.isAddress, also.isAddress] at same
          cases same
          -- Inputs take addresses one after the other, so both are below the same input.
          have sameIndex := Nat.le_antisymm (under.index_le also) (also.index_le under)
          subst sameIndex
          cases under.isBelow.symm.trans also.isBelow
          cases under.isInput.symm.trans also.isInput
          have sameWithin := under.within.trans also.within.symm
          rw [induction under.showsInput under.found also.found sameWithin]

end Heap.Shows

/-- Two places of what is put into the store have the same address exactly if the same node is found
there. -/
theorem Linear.same_address_iff {heap after : Heap} {held : List Address} {root : Address}
    {image : Image} {store : Store} (linear : Linear heap held after root)
    (shows : after.Shows heap.length root image) (size : store.size = heap.length)
    (first second : List Nat) :
    (image.settle store).1.addressAt? first = (image.settle store).1.addressAt? second ↔
      after.follow root first = after.follow root second := by
  have standsFirst := shows.stands linear.grounded store first
  have standsSecond := shows.stands linear.grounded store second
  constructor
  · intro same
    rw [← same] at standsSecond
    rcases standsFirst.of_same_address standsSecond (Nat.le_of_eq size.symm) with
      sameNode | ⟨node, other, found, foundOther, behind, otherBehind⟩
    · exact sameNode
    · rw [shows.new_apart linear.grounded found behind foundOther otherBehind same]
  · intro same
    rw [← same] at standsSecond
    rcases standsFirst.of_same_node standsSecond with sameAddress | ⟨node, found, behind⟩
    · exact sameAddress
    · obtain ⟨place, _, only⟩ := linear.found_once behind (linear.follow_lt found)
      rw [only first found, only second (same ▸ found)]

end ImageGraph
