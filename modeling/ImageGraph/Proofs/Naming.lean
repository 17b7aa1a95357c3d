import ImageGraph.Proofs.Assigning
import ImageGraph.Proofs.Contexts
import ImageGraph.Proofs.Sharing

/-!
Names for intermediate images. An expression that describes an image may be given a name first, and the
name may stand in its place. What is built is the same but for where it is kept: the image under the
name has been stored, and the one that the expression describes is still loose.
-/

set_option autoImplicit false

namespace ImageGraph

def Expr.IsReadFrom (expression : Expr) (text : String) : Prop :=
  ∃ result, parse text = .ok result ∧ result.bare = expression.bare

/-- Two images, each with the store that its settings are in, are the same graph. The images stored
below the limit are in both stores and the graphs have them in the same places. All others have the
same kinds, resolutions, inputs and settings, and each of them occurs only once. -/
structure Image.Alike (limit : Address) (store other : Store) (image again : Image) : Prop where
  kept : ∀ address < limit, other[address]? = store[address]?
  same : again.mapHomes (Home.loosen limit other) = image.mapHomes (Home.loosen limit store)
  distinct : (newAddresses limit [image]).Nodup
  distinctAgain : (newAddresses limit [again]).Nodup

/-- Two computations of images end with the same graph or with the same error. -/
inductive SameEnd (limit : Address) (store other : Store) :
    Except Error Image → Except Error Image → Prop where
  | built {image again : Image} (alike : image.Alike limit store other again) :
      SameEnd limit store other (.ok image) (.ok again)
  | failed (error : Error) : SameEnd limit store other (.error error) (.error error)

theorem written_none_of_image {names : Registry} {defaults : Defaults} {expression : Expr}
    {picture : Image}
    (yields : evaluate (.graph names defaults) expression = .ok (.image picture)) :
    writtenResolution? names defaults expression = none := by
  cases expression with
  | identifier name span =>
      rw [evaluate, Scope.lookup] at yields
      split at yields
      · rename_i image bound
        simp [writtenResolution?, Registry.contains, bound]
      · split at yields <;> cases yields
  | resolution width height span =>
      rw [evaluate] at yields
      cases yields
  | _ => rfl

namespace Session

variable {session : Session} {catalog : Catalog} {name : String}

theorem Recorded.loosened (recorded : session.Recorded catalog) {image : Image}
    (known : image.Known session.defaults catalog) (other : Store) :
    image.mapHomes (Home.loosen session.store.size other) = image :=
  known.loosened (List.prefix_refl _) recorded.describes (Nat.le_of_eq recorded.describes.length) other

theorem Recorded.no_new_addresses (recorded : session.Recorded catalog) {image : Image}
    (known : image.Known session.defaults catalog) :
    Image.newAddresses session.store.size [image] = [] :=
  known.no_new_addresses (List.prefix_refl _) recorded.describes
    (Nat.le_of_eq recorded.describes.length)

theorem Recorded.get_apart (recorded : session.Recorded catalog) {picture : Image} {other : String}
    (apart : other ≠ name) :
    (session.register name picture).names.get? other = session.names.get? other ∧
      ∀ image, session.names.get? other = some image →
        image.mapHomes (Home.loosen session.store.size (session.register name picture).store) =
            image ∧
          Image.newAddresses session.store.size [image] = [] := by
  refine ⟨(session.get_register name other picture).trans (if_neg apart), ?_⟩
  intro image bound
  have known := recorded.known other image bound
  exact ⟨recorded.loosened known _, recorded.no_new_addresses known⟩

/-- In a context that does not mention the name, the named image is used only once. -/
theorem Recorded.fill_distinct (recorded : session.Recorded catalog) {picture bound : Image}
    {context : Expr.Context} {span : Span} (apart : name ∉ context.identifiers)
    (isBound : (session.register name picture).names.get? name = some bound)
    (distinct : (Image.newAddresses session.store.size [bound]).Nodup) :
    ((context.fill (.identifier name span)).mentionedAddresses
      (session.register name picture).names session.store.size).Nodup := by
  have elsewhere : (context.identifiers.flatMap fun other => Image.newAddresses session.store.size
      ((session.register name picture).names.get? other).toList) = [] := by
    rw [List.flatMap_eq_nil_iff]
    intro other mentioned
    have different : other ≠ name := by
      rintro rfl
      exact apart mentioned
    obtain ⟨same, old⟩ := recorded.get_apart different
    rw [same]
    cases present : session.names.get? other with
    | none => rfl
    | some image => exact (old image present).2
  have mentions := (context.identifiers_fill (.identifier name span)).flatMap_right fun other =>
    Image.newAddresses session.store.size
      ((session.register name picture).names.get? other).toList
  have own : (Expr.identifier name span).identifiers = [name] := by
    rw [Expr.identifiers_eq]
    rfl
  rw [List.flatMap_append, elsewhere, own, List.flatMap_singleton, isBound, List.append_nil]
    at mentions
  exact mentions.nodup_iff.2 distinct

theorem name_interchanges {picture bound : Image} {expression : Expr} (span : Span)
    (yields : evaluate (.graph session.names session.defaults) expression = .ok (.image picture))
    (isBound : (session.register name picture).names.get? name = some bound)
    (restored : bound.mapHomes
      (Home.loosen session.store.size (session.register name picture).store) = picture) :
    Expr.Context.Interchanges
      (Home.loosen session.store.size (session.register name picture).store)
      (session.register name picture).names session.names session.defaults session.defaults
      (.identifier name span) expression := by
  have names : evaluate (.graph (session.register name picture).names session.defaults)
      (.identifier name span) = .ok (.image bound) := by
    rw [evaluate, Scope.lookup]
    simp only [isBound]
  constructor
  · rw [Corresponds, yields, names]
    exact congrArg (fun image => Except.ok (Value.image image)) restored.symm
  · rw [written_none_of_image yields, written_none_of_image names]

theorem Recorded.around_interchanges (recorded : session.Recorded catalog) {picture : Image}
    {context : Expr.Context} (apart : name ∉ context.identifiers) :
    ∀ part ∈ context.others, Expr.Context.Interchanges
      (Home.loosen session.store.size (session.register name picture).store)
      (session.register name picture).names session.names session.defaults session.defaults
      part part := by
  intro part isPart
  apply Expr.Context.interchanges_self fun _ => rfl
  intro other mentioned
  have different : other ≠ name := by
    rintro rfl
    exact apart (List.mem_flatMap.2 ⟨part, isPart, mentioned⟩)
  obtain ⟨same, old⟩ := recorded.get_apart different
  rw [same]
  cases present : session.names.get? other with
  | none => rfl
  | some image => exact congrArg some (old image present).1.symm

/-- In every context the same is described by the expression and, once it has a name, by the name. -/
theorem Recorded.describe_named (recorded : session.Recorded catalog) {picture : Image}
    {expression : Expr} {context : Expr.Context} (span : Span) (identifier : isIdentifier name = true)
    (yields : evaluate (.graph session.names session.defaults) expression = .ok (.image picture))
    (apart : name ∉ context.identifiers) :
    SameEnd session.store.size session.store (session.register name picture).store
      ((context.fill expression).describe session.names session.defaults)
      ((context.fill (.identifier name span)).describe (session.register name picture).names
        session.defaults) := by
  have pictureKnown : picture.Known session.defaults catalog :=
    expression.describes_known recorded.known _ yields
  obtain ⟨_, bound, _, isBound, restored, distinct⟩ := recorded.register identifier pictureKnown
  have interchanges := context.fill_interchanges (fun _ => rfl) rfl
    (name_interchanges span yields isBound restored) (recorded.around_interchanges apart)
  have described := described_correspond (fun _ => rfl) rfl interchanges.value
  cases again : (context.fill (.identifier name span)).describe
      (session.register name picture).names session.defaults with
  | error error =>
      rw [again] at described
      rw [described]
      exact .failed error
  | ok image =>
      rw [again] at described
      obtain ⟨value, evaluated, serves⟩ := described_iff.1 described
      have imageKnown := Value.to_image_known
        ((context.fill expression).describes_known recorded.known value evaluated) serves
      rw [described]
      refine .built ⟨?_, ?_, ?_, ?_⟩
      · obtain ⟨added, adds⟩ := picture.store_settle session.store
        intro address below
        have store : (session.register name picture).store = session.store ++ added := adds
        rw [store, Array.getElem?_append_left below]
      · exact (recorded.loosened imageKnown session.store).symm
      · rw [recorded.no_new_addresses imageKnown]
        exact List.nodup_nil
      · exact (Expr.shares _ _ _ _ image again).nodup
          (recorded.fill_distinct apart isBound distinct)

/-- An expression whose value is an image may be given a name that the context around it does not
mention. With the name in its place the same is built, or it fails with the same error. -/
theorem naming_keeps_what_is_built (defaults : Defaults) (commands : List Command)
    {text whole short : String} {expression : Expr} {context : Expr.Context} {span : Span}
    {picture : Image} (identifier : isIdentifier name = true) (isRead : expression.IsReadFrom text)
    (yields : evaluate (.graph ((start defaults).run commands).names
      ((start defaults).run commands).defaults) expression = .ok (.image picture))
    (apart : name ∉ context.identifiers)
    (wholeRead : (context.fill expression).IsReadFrom whole)
    (shortRead : (context.fill (.identifier name span)).IsReadFrom short) :
    let before := (start defaults).run commands
    let after := (before.step (.line (name ++ " = " ++ text))).2
    (before.step (.line (name ++ " = " ++ text))).1 = .ok (.registered name) ∧
      SameEnd before.store.size before.store after.store (before.compile whole)
        (after.compile short) := by
  obtain ⟨catalog, recorded, -⟩ := (recorded_start defaults).run commands
  generalize (start defaults).run commands = session at recorded yields
  intro before after
  obtain ⟨_, textParsed, textBare⟩ := isRead
  obtain ⟨_, wholeParsed, wholeBare⟩ := wholeRead
  obtain ⟨_, shortParsed, shortBare⟩ := shortRead
  have compiled : session.compile text = .ok picture := by
    rw [Session.compile, compile_of_bare textParsed textBare]
    exact described_iff.2 ⟨_, yields, rfl⟩
  have stepped : before.step (.line (name ++ " = " ++ text)) =
      (.ok (.registered name), session.register name picture) := by
    rw [step_name_line identifier textParsed, named_ok compiled]
  have isAfter : after = session.register name picture := congrArg Prod.snd stepped
  refine ⟨congrArg Prod.fst stepped, ?_⟩
  rw [isAfter, Session.compile, Session.compile, compile_of_bare wholeParsed wholeBare,
    compile_of_bare shortParsed shortBare]
  exact recorded.describe_named span identifier yields apart

/-- A blur may be given a name before it is blended. -/
theorem blended_blur_named :
    let picture := Image.generator (.stored 0) .noise ⟨64, 64⟩
    let before := (start .standard).run [.line "y = noise(64)"]
    let after := (before.step (.line "x = blur(y)")).2
    before.compile "blend(blur(y), y)" =
        .ok (.ofMerger .blend (.ofFilter .blur picture) picture) ∧
      (before.step (.line "x = blur(y)")).1 = .ok (.registered "x") ∧
      SameEnd before.store.size before.store after.store (before.compile "blend(blur(y), y)")
        (after.compile "blend(x, y)") := by
  let argument (start : Nat) := Expr.identifier "y" ⟨start, start + 1⟩
  let context := Expr.Context.call "blend" [] .hole [argument 15] ⟨0, 17⟩
  have isRead : (Expr.call "blur" [argument 5] ⟨0, 7⟩).IsReadFrom "blur(y)" :=
    ⟨.call "blur" [argument 5] ⟨0, 7⟩, by cbv, rfl⟩
  have wholeRead : (context.fill (.call "blur" [argument 5] ⟨0, 7⟩)).IsReadFrom
      "blend(blur(y), y)" :=
    ⟨.call "blend" [.call "blur" [argument 11] ⟨6, 13⟩, argument 15] ⟨0, 17⟩, by cbv, rfl⟩
  have shortRead : (context.fill (.identifier "x" ⟨6, 7⟩)).IsReadFrom "blend(x, y)" :=
    ⟨.call "blend" [.identifier "x" ⟨6, 7⟩, argument 9] ⟨0, 11⟩, by cbv, rfl⟩
  have bound : ((start .standard).run [.line "y = noise(64)"]).names.get? "y" =
      some (.generator (.stored 0) .noise ⟨64, 64⟩) := by
    decide +kernel
  have yields : evaluate (.graph ((start .standard).run [.line "y = noise(64)"]).names
      ((start .standard).run [.line "y = noise(64)"]).defaults)
        (.call "blur" [argument 5] ⟨0, 7⟩) =
      .ok (.image (.ofFilter .blur (.generator (.stored 0) .noise ⟨64, 64⟩))) := by
    have found : Constructor.named? "blur" = some (.image (.filter .blur)) :=
      Constructor.named_name (.image (.filter .blur))
    rw [evaluate_effect found (by simp) rfl]
    simp [argument, evaluateImages, evaluate, Scope.lookup, bound]
    rfl
  have identifier : isIdentifier "x" = true := by decide
  have apart : "x" ∉ context.identifiers := by decide
  have line : "x" ++ " = " ++ "blur(y)" = "x = blur(y)" := by decide +kernel
  have named := naming_keeps_what_is_built .standard [.line "y = noise(64)"] identifier isRead yields
    apart wholeRead shortRead
  rw [line] at named
  exact ⟨by decide +kernel, named⟩

end Session

end ImageGraph
