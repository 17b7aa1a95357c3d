import ImageGraph.Proofs.Aliasing
import ImageGraph.Proofs.Combining
import ImageGraph.Proofs.Entries
import ImageGraph.Proofs.Recorded

/-!
Freshness. Evaluation builds nodes that were not there before, each for one place in what the
expression stands for, and it uses what was there before only where an identifier of the expression
names it. So what is set at a new node cannot show up at another place. All sessions have nodes that
evaluation can start from.
-/

set_option autoImplicit false

namespace ImageGraph

/-- How what is built for an expression is related to what was there before. -/
structure Fresh (names : Registry) (expression : Expr) (heap : Heap) (root : Address) (after : Heap)
    (image : Image) : Prop where
  /-- Each new node is one input of one node, and an old one is used where it has been named. -/
  linear : Linear heap (expression.handles names) after root
  /-- A new node is found at one place, and what is set there is seen at no other. -/
  seen_once : ∀ address, heap.length ≤ address → address < after.length →
    ∃ place, after.follow root place = some address ∧
      (∀ other, after.follow root other = some address → other = place) ∧
      ∀ other, other ≠ place → ∀ settings,
        (after.change address settings).settingsAt? root other = after.settingsAt? root other
  /-- What was stored before enters as the images of the identifiers, in the order of the text. -/
  entries : image.entries Home.isStored = expression.bindings names
  /-- In the store the same places share an address that share a node in the heap. -/
  addresses : ∀ store : Store, store.size = heap.length → ∀ first second,
    ((image.settle store).1.addressAt? first = (image.settle store).1.addressAt? second ↔
      after.follow root first = after.follow root second)

/-- A text in so many pairs of parentheses. -/
def enclosed : Nat → String → String
  | 0, text => text
  | depth + 1, text => "(" ++ enclosed depth text ++ ")"

theorem enclosed_readable {name : String} (identifier : isIdentifier name = true) (depth : Nat) :
    Expr.Readable (enclosed depth name).toList
      (Expr.Part.IsWhole (.identifier name Expr.nowhere)) := by
  induction depth with
  | zero =>
      have atom : Expr.Readable name.toList (Expr.Part.IsPrimary (.identifier name Expr.nowhere)) :=
        .atom (identifier_spelled identifier) rfl fun place =>
          ⟨_, .name name place, by rw [Expr.bare, Expr.bare]⟩
      exact atom.whole
  | succ depth readable =>
      have text : (enclosed (depth + 1) name).toList =
          '(' :: ((enclosed depth name).toList ++ [')']) := by
        simp [enclosed]
      rw [text]
      exact readable.group.whole

theorem enclosed_parsed {name : String} (identifier : isIdentifier name = true) (depth : Nat) :
    ∃ span, parse (enclosed depth name) = .ok (.identifier name span) := by
  obtain ⟨result, parsed, same⟩ := (enclosed_readable identifier depth).parse
  rw [String.ofList_toList] at parsed
  cases result with
  | identifier other span =>
      rw [Expr.bare, Expr.bare] at same
      cases same
      exact ⟨span, parsed⟩
  | _ =>
      rw [Expr.bare, Expr.bare] at same
      cases same

section Compiled

variable {names : Registry} {heap : Heap}

theorem Heap.Holds.is_stored (holds : heap.Holds heap.length names) : names.IsStored := by
  intro name image bound
  obtain ⟨address, _, shows⟩ := holds name image bound
  rw [shows.stored_home shows.root_lt]
  rfl

theorem Heap.Holds.handles_lt (holds : heap.Holds heap.length names) (expression : Expr) :
    ∀ address ∈ expression.handles names, address < heap.length := by
  intro address member
  obtain ⟨image, isBound, isAddress⟩ := List.mem_filterMap.1 member
  obtain ⟨name, _, bound⟩ := List.mem_filterMap.1 isBound
  obtain ⟨own, isHandle, shows⟩ := holds name image bound
  rw [Registry.handle?, bound, Option.bind_some, isAddress] at isHandle
  cases isHandle
  exact shows.root_lt

theorem described_entries (stored : names.IsStored) {defaults : Defaults} {expression : Expr}
    {image : Image} (describes : expression.describe names defaults = .ok image) :
    image.entries Home.isStored = expression.bindings names := by
  obtain ⟨value, evaluated, serves⟩ := described_iff.1 describes
  rw [Value.entries_to_image serves]
  exact expression.enters stored value evaluated

theorem allocated_fresh {defaults : Defaults} (grounded : heap.Grounded)
    (holds : heap.Holds heap.length names) {text : String} {expression : Expr} {root : Address}
    {after : Heap} {image : Image} (parsed : parse text = .ok expression)
    (allocated : Allocation.compile names defaults text heap = .ok (root, after))
    (compiled : compile names defaults text = .ok image)
    (shows : after.Shows heap.length root image) :
    Fresh names expression heap root after image := by
  have ledger := Allocation.Accounts.compiled parsed heap root after allocated
  have linear := ledger.linear (holds.handles_lt expression) grounded
  rw [compile_parsed parsed] at compiled
  refine ⟨linear, ?_, described_entries holds.is_stored compiled, ?_⟩
  · intro address atLeast before
    exact linear.seen_once atLeast before
  · intro store size
    exact linear.same_address_iff shows size

theorem allocate_identifier {defaults : Defaults} {text name : String} {span : Span}
    {address : Address} (parsed : parse text = .ok (.identifier name span))
    (isHandle : names.handle? name = some address) :
    Allocation.compile names defaults text heap = .ok (address, heap) := by
  have named : Allocation.evaluate names defaults (.identifier name span) =
      pure (.node address) := by
    rw [Allocation.evaluate, isHandle]
  unfold Allocation.compile
  rw [parsed]
  change (Allocation.evaluate names defaults (.identifier name span) >>=
    Allocation.toNode defaults) heap = _
  rw [named]
  rfl

/-- Compiling shares only what is named. It builds nodes from which the image can be read off that is
compiled to, each of them for one place, and an old node is used for the identifiers that stand for
it. A text that is an identifier, possibly in parentheses, builds nothing. -/
theorem compile_shares_only_names (defaults : Defaults) (grounded : heap.Grounded)
    (holds : heap.Holds heap.length names) :
    (∀ text, Refines (fun after root image => after.Shows heap.length root image) heap
      (compile names defaults text) (Allocation.compile names defaults text heap)) ∧
    (∀ text root after, Allocation.compile names defaults text heap = .ok (root, after) →
      ∃ expression image, parse text = .ok expression ∧ compile names defaults text = .ok image ∧
        Fresh names expression heap root after image) ∧
    (∀ text name span address, parse text = .ok (.identifier name span) →
      names.handle? name = some address →
        Allocation.compile names defaults text heap = .ok (address, heap)) ∧
    ∀ depth name, isIdentifier name = true →
      ∃ span, parse (enclosed depth name) = .ok (.identifier name span) := by
  refine ⟨Allocation.compile_refines holds, ?_, ?_, ?_⟩
  · intro text root after allocated
    have refines : Refines (fun after root image => after.Shows heap.length root image) heap
        (compile names defaults text) (Allocation.compile names defaults text heap) :=
      Allocation.compile_refines holds text
    rw [allocated] at refines
    cases compiled : compile names defaults text with
    | error error =>
        rw [compiled] at refines
        cases refines
    | ok image =>
        rw [compiled] at refines
        obtain ⟨expression, parsed, _⟩ := bind_eq_ok compiled
        cases refines with
        | ok _ shows =>
            have fresh := allocated_fresh grounded holds parsed allocated compiled shows
            exact ⟨expression, image, parsed, rfl, fresh⟩
  · intro text name span address parsed isHandle
    exact allocate_identifier parsed isHandle
  · intro depth name identifier
    exact enclosed_parsed identifier depth

end Compiled

namespace Catalog

variable {defaults : Defaults} {catalog : Catalog} {store : Store} {address : Address}
  {image : Image}

def heap (catalog : Catalog) (store : Store) : Heap :=
  catalog.map fun image =>
    ⟨image.kind, image.resolution?, image.inputs.filterMap Image.address?, image.settings store⟩

theorem node_of_listed (listed : catalog[address]? = some image) :
    (catalog.heap store)[address]? = some ⟨image.kind, image.resolution?,
      image.inputs.filterMap Image.address?, image.settings store⟩ := by
  rw [heap, List.getElem?_map, listed]
  rfl

theorem listed_of_node {node : Node} (isNode : (catalog.heap store)[address]? = some node) :
    ∃ image, catalog[address]? = some image ∧
      node.inputs = image.inputs.filterMap Image.address? ∧
      node.settings = image.settings store := by
  rw [heap, List.getElem?_map] at isNode
  obtain ⟨image, listed, made⟩ := Option.map_eq_some_iff.1 isNode
  cases made
  exact ⟨image, listed, rfl, rfl⟩

theorem addresses_paired {images : List Image}
    (stored : ∀ image ∈ images, ∃ address, image.address? = some address) :
    List.Forall₂ (fun address image => image.address? = some address)
      (images.filterMap Image.address?) images := by
  induction images with
  | nil => exact .nil
  | cons image images induction =>
      rw [List.forall_mem_cons] at stored
      obtain ⟨address, isAddress⟩ := stored.1
      rw [List.filterMap_cons_some isAddress]
      exact .cons isAddress (induction stored.2)

theorem Describes.input_listed (describes : catalog.Describes defaults store)
    (listed : catalog[address]? = some image) {input : Image} (isInput : input ∈ image.inputs) :
    ∃ below, input.address? = some below ∧ below < address ∧ catalog[below]? = some input := by
  obtain ⟨below, less, inputListed⟩ := describes.inputs address image listed input isInput
  have home := describes.home below input inputListed
  exact ⟨below, (input.address_eq_some below).2 home, less, inputListed⟩

theorem Describes.grounded (describes : catalog.Describes defaults store) :
    (catalog.heap store).Grounded := by
  intro address node isNode below member
  obtain ⟨image, listed, inputs, _⟩ := listed_of_node isNode
  rw [inputs] at member
  obtain ⟨input, isInput, isAddress⟩ := List.mem_filterMap.1 member
  obtain ⟨own, isOwn, less, _⟩ := describes.input_listed listed isInput
  cases isOwn.symm.trans isAddress
  exact less

theorem Describes.shows (describes : catalog.Describes defaults store)
    (listed : catalog[address]? = some image) :
    (catalog.heap store).Shows catalog.length address image := by
  -- Images occur in several others, so the induction is on the address and not on the image.
  induction address using Nat.strongRecOn generalizing image with
  | ind address induction =>
      have stored : ∀ input ∈ image.inputs, ∃ below, input.address? = some below := by
        intro input isInput
        obtain ⟨below, isAddress, _⟩ := describes.input_listed listed isInput
        exact ⟨below, isAddress⟩
      obtain ⟨count, each⟩ := List.forall₂_iff_zip.1 (addresses_paired stored)
      have before := (List.getElem?_eq_some_iff.1 listed).1
      refine .node (node_of_listed listed) rfl rfl ?_ count ?_
      · rw [if_pos before]
        exact describes.home address image listed
      · intro below input member
        have isInput := (List.of_mem_zip member).2
        obtain ⟨own, isOwn, less, inputListed⟩ := describes.input_listed listed isInput
        obtain rfl := Option.some.inj (isOwn.symm.trans (each member))
        exact induction own less inputListed

theorem Describes.settings_heap (describes : catalog.Describes defaults store) :
    (catalog.heap store).map Node.settings = store.toList := by
  apply List.ext_getElem?
  intro address
  have right : store.toList[address]? = store[address]? := Array.getElem?_toList
  rw [right, heap, List.map_map, List.getElem?_map]
  cases listed : catalog[address]? with
  | none =>
      have absent := List.getElem?_eq_none_iff.1 listed
      rw [describes.length] at absent
      exact (Array.getElem?_eq_none absent).symm
  | some image =>
      have home := describes.home address image listed
      have bound := describes.address_lt listed
      simp [Image.settings, home, Array.getD_eq_getD_getElem?, bound]

end Catalog

namespace Session

/-- Every session that is run has nodes with the settings in its store, and a handle for each name. -/
theorem run_heap (defaults : Defaults) (commands : List Command) :
    ∃ heap : Heap, heap.map Node.settings = ((start defaults).run commands).store.toList ∧
      heap.Grounded ∧ heap.Holds heap.length ((start defaults).run commands).names := by
  obtain ⟨catalog, recorded, _⟩ := (recorded_start defaults).run commands
  rw [List.nil_append] at recorded
  refine ⟨catalog.heap _, recorded.describes.settings_heap, recorded.describes.grounded, ?_⟩
  · intro name image bound
    obtain ⟨address, home, listed⟩ := recorded.address_of_name bound
    refine ⟨address, ?_, ?_⟩
    · rw [Registry.handle?, bound]
      exact (image.address_eq_some address).2 home
    · rw [Catalog.heap, List.length_map]
      exact recorded.describes.shows listed

/-- The sum of a blur and its source is made of two new nodes and of the source, twice. -/
theorem sum_shares_source :
    let session := (start .standard).run [.line "x = noise(64)"]
    let heap : Heap := [.fresh (.generator .noise) (some ⟨64, 64⟩) []]
    heap.Grounded ∧ heap.Holds heap.length session.names ∧
      Allocation.compile session.names session.defaults "((x))" heap = .ok (0, heap) ∧
      ∃ expression image after, parse "blur(x) + (x)" = .ok expression ∧
        expression.handles session.names = [0, 0] ∧
        Allocation.compile session.names session.defaults "blur(x) + (x)" heap = .ok (2, after) ∧
        session.compile "blur(x) + (x)" = .ok image ∧
        Fresh session.names expression heap 2 after image := by
  intro session heap
  have names : session.names = [("x", .generator (.stored 0) .noise ⟨64, 64⟩)] := by
    decide +kernel
  have grounded : heap.Grounded := by
    intro address node isNode below member
    cases address with
    | zero =>
        cases isNode
        cases member
    | succ address => cases isNode
  have holds : heap.Holds heap.length session.names := by
    intro name image bound
    rw [names, Registry.get_cons] at bound
    rw [names, Registry.handle?, Registry.get_cons]
    by_cases isX : name = "x"
    · rw [if_pos isX] at bound ⊢
      cases bound
      exact ⟨0, rfl, .node rfl rfl rfl rfl rfl (by simp [Node.fresh])⟩
    · rw [if_neg isX] at bound
      cases bound
  have shares := compile_shares_only_names session.defaults grounded holds
  obtain ⟨span, identifier⟩ := shares.2.2.2 2 "x" (by decide)
  have enclosedX : enclosed 2 "x" = "((x))" := by decide +kernel
  rw [enclosedX] at identifier
  have isHandle : session.names.handle? "x" = some 0 := by
    rw [names]
    rfl
  have makes : (Allocation.compile session.names session.defaults "blur(x) + (x)" heap).map
      Prod.fst = .ok 2 := by
    decide +kernel
  have handles : (parse "blur(x) + (x)").map (Expr.handles session.names) = .ok [0, 0] := by
    decide +kernel
  obtain ⟨after, allocated⟩ : ∃ after,
      Allocation.compile session.names session.defaults "blur(x) + (x)" heap = .ok (2, after) := by
    cases ended : Allocation.compile session.names session.defaults "blur(x) + (x)" heap with
    | error error =>
        rw [ended] at makes
        cases makes
    | ok result =>
        obtain ⟨root, after⟩ := result
        rw [ended] at makes
        cases makes
        exact ⟨after, rfl⟩
  obtain ⟨expression, image, parsed, compiled, fresh⟩ := shares.2.1 _ 2 after allocated
  rw [parsed] at handles
  exact ⟨grounded, holds, shares.2.2.1 _ "x" span 0 identifier isHandle, expression, image, after,
    parsed, Except.ok.inj handles, allocated, compiled, fresh⟩

end Session

end ImageGraph
