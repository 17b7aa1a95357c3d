import ImageGraph.Proofs.Known
import ImageGraph.Proofs.Mentions
import ImageGraph.Proofs.Settling

/-!
Sharing. An expression uses the image of a name once for each time that it mentions the name, and
everything else that it describes is new. So no stored image occurs more often in what is described
than among the images of the mentioned names.
-/

set_option autoImplicit false

namespace ImageGraph

variable {names : Registry} {defaults : Defaults} {limit : Address}

namespace Image

theorem new_addresses_append (limit : Address) (images others : List Image) :
    newAddresses limit (images ++ others) =
      newAddresses limit images ++ newAddresses limit others := by
  simp [newAddresses]

theorem new_addresses_loose {image : Image} {settings : Settings}
    (loose : image.home = .loose settings) :
    newAddresses limit [image] = newAddresses limit image.inputs := by
  simp [newAddresses, parts_eq image, address?, loose]

theorem new_addresses_of_color (shade : Color) :
    newAddresses limit [ofColor defaults shade] = [] := by
  simp [newAddresses, ofColor, ofGenerator, withValue, newHome, home, moveTo, parts, address?]

theorem new_addresses_combine (operator : Operator) (first second : Image) :
    newAddresses limit [operator.combine first second] =
      newAddresses limit [first] ++ newAddresses limit [second] := by
  have loose : ∃ settings, (operator.combine first second).home = .loose settings := by
    cases operator <;> exact ⟨_, rfl⟩
  have inputs : (operator.combine first second).inputs = [first] ++ [second] := by
    cases operator <;> rfl
  obtain ⟨settings, home⟩ := loose
  rw [new_addresses_loose home, inputs, new_addresses_append]

end Image

namespace Expr

def mentionedAddresses (names : Registry) (limit : Address) (expression : Expr) : List Address :=
  expression.identifiers.flatMap fun name => Image.newAddresses limit (names.get? name).toList

/-- The image that an expression describes has no new address more often than the expression mentions
images that have it. -/
def Shares (names : Registry) (defaults : Defaults) (limit : Address) (expression : Expr) : Prop :=
  ∀ image, expression.describe names defaults = .ok image →
    (Image.newAddresses limit [image]).Sublist (expression.mentionedAddresses names limit)

theorem mentioned_of_operands {expression : Expr} (unnamed : expression.name? = none) :
    expression.mentionedAddresses names limit =
      expression.operands.flatMap (mentionedAddresses names limit) := by
  rw [mentionedAddresses, identifiers_eq, unnamed, Option.toList_none, List.nil_append,
    List.flatMap_assoc]
  rfl

/-- Only a value that is an image has addresses at all. -/
theorem shares_of_image {expression : Expr}
    (shares : ∀ picture, evaluate (.graph names defaults) expression = .ok (.image picture) →
      (Image.newAddresses limit [picture]).Sublist (expression.mentionedAddresses names limit)) :
    expression.Shares names defaults limit := by
  intro image describes
  obtain ⟨value, evaluated, serves⟩ := described_iff.1 describes
  rcases Value.to_image_cases serves with rfl | ⟨shade, rfl⟩
  · exact shares image evaluated
  · rw [Image.new_addresses_of_color]
    exact List.nil_sublist _

theorem images_share {arguments : List Expr} {images : List Image}
    (each : ∀ argument ∈ arguments, argument.Shares names defaults limit)
    (evaluated : evaluateImages (.graph names defaults) defaults arguments = .ok images) :
    (Image.newAddresses limit images).Sublist
      (arguments.flatMap (mentionedAddresses names limit)) := by
  induction arguments generalizing images with
  | nil =>
      rw [evaluateImages] at evaluated
      cases evaluated
      exact List.nil_sublist _
  | cons argument arguments induction =>
      rw [evaluateImages] at evaluated
      obtain ⟨value, headEvaluated, evaluated⟩ := bind_eq_ok evaluated
      obtain ⟨image, serves, evaluated⟩ := bind_eq_ok evaluated
      obtain ⟨others, tailEvaluated, evaluated⟩ := bind_eq_ok evaluated
      cases evaluated
      rw [List.forall_mem_cons] at each
      have described := described_iff.2 ⟨value, headEvaluated, serves⟩
      rw [Image.new_addresses_cons, List.flatMap_cons]
      exact (each.1 image described).append (induction each.2 tailEvaluated)

/-- What an expression describes shares stored images with the names that it mentions, and no more
often than it mentions them. -/
theorem shares (names : Registry) (defaults : Defaults) (limit : Address) (expression : Expr) :
    expression.Shares names defaults limit := by
  induction expression using by_operands with
  | identifier name span =>
      apply shares_of_image
      intro picture evaluated
      cases evaluate_yields evaluated with
      | named span graph bound =>
          cases graph
          rw [mentionedAddresses, identifiers_eq]
          simp [name?, operands, bound]
  | call function arguments span each =>
      apply shares_of_image
      intro picture evaluated
      rw [mentioned_of_operands rfl]
      cases evaluate_yields evaluated with
      | generator span graph makes given => exact List.nil_sublist _
      | effect span graph makes effect new computed =>
          cases graph
          rw [Image.new_addresses_loose new]
          exact images_share each computed
  | binary operator first second span left right =>
      apply shares_of_image
      intro picture evaluated
      cases evaluate_yields evaluated with
      | combination span graph firstEvaluated secondEvaluated firstServes secondServes =>
          cases graph
          have firstDescribes := described_iff.2 ⟨_, firstEvaluated, firstServes⟩
          have secondDescribes := described_iff.2 ⟨_, secondEvaluated, secondServes⟩
          rw [Image.new_addresses_combine, mentioned_of_operands rfl, operands, List.flatMap_cons,
            List.flatMap_cons, List.flatMap_nil, List.append_nil]
          exact (left _ firstDescribes).append (right _ secondDescribes)
  | _ =>
      apply shares_of_image
      intro picture evaluated
      cases evaluate_yields evaluated

end Expr

end ImageGraph
