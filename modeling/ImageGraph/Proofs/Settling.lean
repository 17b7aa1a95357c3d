import ImageGraph.Proofs.Catalog

/-!
Settling an image adds its loose parts to the store, each behind its inputs, and adds them to the
catalog in the same order. The settled image is the one that was settled: taking out of the store
again what was added gives the image back, and no two of its parts have been put in one place.
-/

set_option autoImplicit false

namespace ImageGraph

/-- A home with its settings taken out of the store, if its address is not below the limit. -/
def Home.loosen (limit : Address) (store : Store) : Home → Home
  | .stored address =>
      if address < limit then .stored address else .loose (store.getD address [])
  | .loose settings => .loose settings

namespace Image

variable {defaults : Defaults} {catalog : Catalog} {store : Store}

theorem loosen_append (describes : catalog.Describes defaults store) {image : Image}
    {address : Address} (listed : catalog[address]? = some image) (limit : Address)
    (added : Store) :
    image.mapHomes (Home.loosen limit (store ++ added)) =
      image.mapHomes (Home.loosen limit store) := by
  apply map_homes_congr
  intro part within
  obtain ⟨below, _, partListed⟩ := describes.parts_listed listed within
  have bound := describes.address_lt partListed
  rw [describes.home below part partListed]
  simp [Home.loosen, Array.getD_eq_getD_getElem?, Array.getElem?_append_left bound]

/-- The addresses of all parts, those below the limit left out. A part is counted wherever it
occurs. -/
def newAddresses (limit : Address) (images : List Image) : List Address :=
  ((images.flatMap parts).filterMap address?).filter (limit ≤ ·)

theorem mem_new_addresses (limit address : Address) (images : List Image) :
    address ∈ newAddresses limit images ↔
      limit ≤ address ∧ ∃ image ∈ images, ∃ part ∈ image.parts, part.address? = some address := by
  simp only [newAddresses, List.mem_filter, List.mem_filterMap, List.mem_flatMap,
    decide_eq_true_eq]
  constructor
  · intro member
    rcases member with ⟨⟨part, ⟨image, member, within⟩, isAddress⟩, atLeast⟩
    exact ⟨atLeast, image, member, part, within, isAddress⟩
  · intro occurs
    rcases occurs with ⟨atLeast, image, member, part, within, isAddress⟩
    exact ⟨⟨part, ⟨image, member, within⟩, isAddress⟩, atLeast⟩

theorem new_addresses_cons (limit : Address) (image : Image) (images : List Image) :
    newAddresses limit (image :: images) =
      newAddresses limit [image] ++ newAddresses limit images := by
  simp [newAddresses]

theorem new_addresses_le (describes : catalog.Describes defaults store) {image : Image}
    {limit own address : Address} (listed : catalog[own]? = some image)
    (member : address ∈ newAddresses limit [image]) : address ≤ own := by
  obtain ⟨_, other, isImage, part, within, isAddress⟩ := (mem_new_addresses _ _ _).1 member
  obtain rfl := List.mem_singleton.1 isImage
  obtain ⟨below, notAfter, partListed⟩ := describes.parts_listed listed within
  have home := describes.home below part partListed
  have same : address = below :=
    Option.some.inj (isAddress.symm.trans ((part.address_eq_some below).2 home))
  exact same ▸ notAfter

/-- Several images have been settled: the catalog has grown with the store, it lists the settled
images, and they are those that were to be settled. Their new parts have addresses of their own. -/
structure Settled (defaults : Defaults) (limit : Address) (catalog more : Catalog)
    (images settled : List Image) (store : Store) : Prop where
  describes : Catalog.Describes (catalog ++ more) defaults store
  listed : ∀ image ∈ settled, ∃ address : Address, (catalog ++ more)[address]? = some image
  restored : settled.map (mapHomes (Home.loosen limit store)) = images
  behind : ∀ address ∈ newAddresses limit settled, catalog.length ≤ address
  distinct : (newAddresses limit settled).Nodup

/-- One image can be settled into every catalog that has grown from the one where it is known. -/
def CanSettle (defaults : Defaults) (limit : Address) (first : Catalog) (image : Image) : Prop :=
  ∀ (catalog : Catalog) (store : Store), first <+: catalog → limit ≤ catalog.length →
    catalog.Describes defaults store →
      ∃ more, Settled defaults limit catalog more [image] [(image.settle store).1]
        (image.settle store).2

theorem Settled.new_addresses_lt {limit : Address} {more : Catalog} {images settled : List Image}
    (settles : Settled defaults limit catalog more images settled store) :
    ∀ address ∈ newAddresses limit settled, address < store.size := by
  intro address member
  obtain ⟨atLeast, image, isImage, part, within, isAddress⟩ := (mem_new_addresses _ _ _).1 member
  obtain ⟨own, listed⟩ := settles.listed image isImage
  have inImage : address ∈ newAddresses limit [image] :=
    (mem_new_addresses _ _ _).2 ⟨atLeast, image, List.mem_cons_self, part, within, isAddress⟩
  exact Nat.lt_of_le_of_lt (new_addresses_le settles.describes listed inImage)
    (settles.describes.address_lt listed)

theorem settled_cons {limit : Address} {more rest : Catalog} {image settledHead : Image}
    {images settledTail : List Image} {added : Store}
    (head : Settled defaults limit catalog more [image] [settledHead] store)
    (tail : Settled defaults limit (catalog ++ more) rest images settledTail (store ++ added)) :
    Settled defaults limit catalog (more ++ rest) (image :: images) (settledHead :: settledTail)
      (store ++ added) := by
  obtain ⟨address, listed⟩ := head.listed _ List.mem_cons_self
  have stillListed := Catalog.listed_append rest listed
  have describes := tail.describes
  rw [List.append_assoc] at describes stillListed
  constructor
  · exact describes
  · intro settled member
    rcases List.mem_cons.1 member with rfl | later
    · exact ⟨address, stillListed⟩
    · rw [← List.append_assoc]
      exact tail.listed settled later
  · have restored := loosen_append head.describes listed limit added
    have headRestored := (List.cons.inj head.restored).1
    rw [List.map_cons, restored, headRestored, tail.restored]
  · intro address member
    rw [new_addresses_cons] at member
    rcases List.mem_append.1 member with inHead | inTail
    · exact head.behind address inHead
    · have after := tail.behind address inTail
      rw [List.length_append] at after
      exact Nat.le_trans (Nat.le_add_right _ _) after
  · rw [new_addresses_cons]
    refine List.nodup_append.2 ⟨head.distinct, tail.distinct, ?_⟩
    intro address inHead other inTail same
    subst same
    have before := head.new_addresses_lt address inHead
    rw [← head.describes.length] at before
    exact absurd (tail.behind address inTail) (Nat.not_le.2 before)

theorem settled_all {limit : Address} {first : Catalog} {images : List Image}
    (each : ∀ image ∈ images, CanSettle defaults limit first image) (grown : first <+: catalog)
    (above : limit ≤ catalog.length) (describes : catalog.Describes defaults store) :
    ∃ more, Settled defaults limit catalog more images (settleAll images store).1
      (settleAll images store).2 := by
  induction images generalizing catalog store with
  | nil =>
      refine ⟨[], ?_, ?_, rfl, ?_, ?_⟩
      · simpa [settleAll] using describes
      all_goals simp [settleAll, newAddresses]
  | cons image images induction =>
      obtain ⟨more, head⟩ := each image List.mem_cons_self catalog store grown above describes
      have further : limit ≤ (catalog ++ more).length := by
        rw [List.length_append]
        exact Nat.le_trans above (Nat.le_add_right _ _)
      obtain ⟨rest, tail⟩ :=
        induction (fun other member => each other (List.mem_cons_of_mem _ member))
          (grown.trans (List.prefix_append _ _)) further head.describes
      obtain ⟨added, adds⟩ := store_settle_all images (image.settle store).2
      rw [adds] at tail
      refine ⟨more ++ rest, ?_⟩
      rw [settleAll]
      simp only [adds]
      exact settled_cons head tail

/-- A loose image is stored behind its inputs, once they are settled. -/
theorem settled_loose {limit : Address} {more : Catalog} {image : Image} {settings : Settings}
    {inputs : List Image} (loose : image.home = .loose settings)
    (wellMade : image.WellMade defaults settings) (above : limit ≤ catalog.length)
    (count : inputs.length = image.inputs.length)
    (settles : Settled defaults limit catalog more image.inputs inputs store) :
    Settled defaults limit catalog
      (more ++ [(image.withInputs inputs).moveTo (.stored store.size)]) [image]
      [(image.withInputs inputs).moveTo (.stored store.size)] (store.push settings) := by
  have kept := inputs_with_inputs image inputs count
  have made : ((image.withInputs inputs).moveTo (.stored store.size)).WellMade defaults
      settings := by
    constructor
    · simpa using wellMade.admitted
    · simpa using wellMade.fit
    · exact wellMade.attained
  have describes := settles.describes.push (by simp) made (by simpa [kept] using settles.listed)
  have behind : catalog.length ≤ store.size := by
    rw [← settles.describes.length, List.length_append]
    exact Nat.le_add_right _ _
  have outside : limit ≤ store.size := Nat.le_trans above behind
  have addresses :
      newAddresses limit [(image.withInputs inputs).moveTo (.stored store.size)] =
        store.size :: newAddresses limit inputs := by
    simp [newAddresses, parts_eq, kept, address?, outside]
  constructor
  · rw [List.append_assoc] at describes
    exact describes
  · intro settled member
    obtain rfl := List.mem_singleton.1 member
    refine ⟨(catalog ++ more).length, ?_⟩
    rw [← List.append_assoc, List.getElem?_concat_length]
  · have restored : inputs.map (mapHomes (Home.loosen limit (store.push settings))) =
        image.inputs := by
      rw [← settles.restored]
      apply List.map_congr_left
      intro input isInput
      obtain ⟨address, listed⟩ := settles.listed input isInput
      simpa using loosen_append settles.describes listed limit #[settings]
    have loosened : Home.loosen limit (store.push settings) (.stored store.size) =
        .loose settings := by
      simp [Home.loosen, Nat.not_lt.2 outside]
    rw [List.map_singleton, map_homes_eq]
    simp [kept, restored, loosened, ← loose]
  · intro address member
    rw [addresses] at member
    rcases List.mem_cons.1 member with rfl | below
    · exact behind
    · exact settles.behind address below
  · rw [addresses, List.nodup_cons]
    refine ⟨?_, settles.distinct⟩
    intro again
    exact Nat.lt_irrefl _ (settles.new_addresses_lt _ again)

theorem Known.addresses_lt {grown : Catalog} {image : Image} (known : image.Known defaults catalog)
    (prefixed : catalog <+: grown) (describes : grown.Describes defaults store) :
    ∀ part ∈ image.parts, ∀ address, part.home = .stored address → address < catalog.length := by
  rcases prefixed with ⟨more, rfl⟩
  induction known with
  | @stored image own listed home =>
      intro part within address partHome
      obtain ⟨below, notAfter, partListed⟩ :=
        describes.parts_listed (Catalog.listed_append more listed) within
      have same : address = below :=
        Home.stored.inj (partHome.symm.trans (describes.home below part partListed))
      exact same ▸ Nat.lt_of_le_of_lt notAfter (List.getElem?_eq_some_iff.1 listed).1
  | @loose image settings loose _ _ induction =>
      intro part within address partHome
      rcases (mem_parts_iff part image).1 within with rfl | ⟨input, isInput, deeper⟩
      · rw [loose] at partHome
        cases partHome
      · exact induction input isInput part deeper address partHome

theorem Known.no_new_addresses {grown : Catalog} {image : Image} {limit : Address}
    (known : image.Known defaults catalog) (prefixed : catalog <+: grown)
    (describes : grown.Describes defaults store) (above : catalog.length ≤ limit) :
    newAddresses limit [image] = [] := by
  apply List.eq_nil_iff_forall_not_mem.2
  intro address member
  obtain ⟨atLeast, other, isImage, part, within, isAddress⟩ := (mem_new_addresses _ _ _).1 member
  obtain rfl := List.mem_singleton.1 isImage
  have bound := known.addresses_lt prefixed describes part within address
    ((part.address_eq_some address).1 isAddress)
  exact Nat.not_lt.2 (Nat.le_trans above atLeast) bound

theorem Known.loosened {grown : Catalog} {image : Image} {limit : Address}
    (known : image.Known defaults catalog) (prefixed : catalog <+: grown)
    (describes : grown.Describes defaults store) (above : catalog.length ≤ limit) (other : Store) :
    image.mapHomes (Home.loosen limit other) = image := by
  apply map_homes_id
  intro part within
  cases home : part.home with
  | loose settings => rfl
  | stored address =>
      have bound := known.addresses_lt prefixed describes part within address home
      exact if_pos (Nat.lt_of_lt_of_le bound above)

theorem known_settles {image : Image} {limit : Address} (known : image.Known defaults catalog)
    (above : catalog.length ≤ limit) : CanSettle defaults limit catalog image := by
  induction known with
  | @stored image own listed home =>
      intro _ store prefixed atMost describes
      have known : image.Known defaults catalog := .stored listed home
      have noneNew := known.no_new_addresses prefixed describes above
      have loosened := known.loosened prefixed describes above store
      rcases prefixed with ⟨more, rfl⟩
      rw [settle_stored _ store home]
      refine ⟨[], ?_, ?_, ?_, ?_, ?_⟩
      · simpa using describes
      · simpa using ⟨_, Catalog.listed_append more listed⟩
      · simp [loosened]
      · simp [noneNew]
      · simp [noneNew]
  | @loose image settings loose wellMade _ induction =>
      intro grown store prefixed atMost describes
      have count := length_settle_all image.inputs store
      -- Each input finds a catalog that its predecessors have added to.
      obtain ⟨more, settles⟩ := settled_all induction prefixed atMost describes
      rw [settle_loose image store loose]
      exact ⟨_, settled_loose loose wellMade atMost count settles⟩

end Image

end ImageGraph
