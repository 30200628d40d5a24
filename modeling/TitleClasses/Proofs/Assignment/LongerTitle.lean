import TitleClasses.Proofs.Assignment.Finding
import TitleClasses.Proofs.Rule.WhiteSpace

/-!
# A longer title loses no class

A title in which words are added before or behind has the old title in it, with no word character at the
seams. Every match of a term is still there (`Term.foundIn_of_surrounded`), so that a rule that matched
still does, and the labels of the old title are among those of the new one (`Policy.assign_grows`).
-/

namespace TitleClasses

variable {u s v : Text}

/-- A rule that matches a text matches every longer one, if no word character stands at the seams of what
was added. -/
theorem ruleMatches_of_surrounded {rule : Option Text} (hu : ∀ c, u.getLast? = some c → c.isWord = false)
    (hv : ∀ c, v.head? = some c → c.isWord = false) (hmatch : ruleMatches rule (some s) = true) :
    ruleMatches rule (some (u ++ s ++ v)) = true :=
  ruleMatches_of_foundIn (fun _ _ _ _ => Term.foundIn_of_surrounded hu hv) hmatch

namespace Policy

open Engine

variable {refusal : Option Text → Option CompileError} {pairs : List RulePair}

/-- Pairs whose rules match one subject only if they match another one have no label for the first that
they have not for the second. -/
theorem labelsOf_subset {subject other : Option Text}
    (h : ∀ rule, ruleMatches rule subject = true → ruleMatches rule other = true) :
    labelsOf refusal subject pairs ⊆ labelsOf refusal other pairs := by
  intro l hl
  obtain ⟨rule, label, hoffer, hmatch, hstrip⟩ := mem_labelsOf.mp hl
  exact mem_labelsOf.mpr ⟨rule, label, hoffer, h _ hmatch, hstrip⟩

/-- A policy finds for a title, among any pairs and whatever its engine was asked before, no label that it
does not find for a title with something more before and behind, if what was added before does not end in a
word character and what was added behind does not begin with one. It always finds an answer, skipping the
rules that do not compile, and the answer is the same among however many workers. -/
theorem assign_grows (refusal : Option Text → Option CompileError) (pairs : List RulePair) {u v : Text}
    (hu : ∀ c, u.getLast? = some c → c.isWord = false) (hv : ∀ c, v.head? = some c → c.isWord = false)
    (s : Text) :
    ∃ labels more : List Text, labels ⊆ more ∧
      ∀ (termsField classField : Json) (workers : Int) (calls : List Call),
        let p := Policy.new termsField classField workers
        let e := after refusal calls
        ((p.assign pairs (some s)).run e).result = .ok labels ∧
          ((p.assign pairs (some (u ++ s ++ v))).run e).result = .ok more := by
  refine ⟨labelsOf refusal (some s) pairs, labelsOf refusal (some (u ++ s ++ v)) pairs,
    labelsOf_subset fun rule => ruleMatches_of_surrounded hu hv, ?_⟩
  intro termsField classField workers calls p e
  obtain ⟨hsound, hrefusal⟩ := after_sound refusal calls
  have hworkers : 0 < p.workers := new_workers_pos termsField classField workers
  exact ⟨(finds_assign refusal (some s) hworkers pairs e hsound hrefusal).1,
    (finds_assign refusal (some (u ++ s ++ v)) hworkers pairs e hsound hrefusal).1⟩

/-- A title in brackets, and the same one with a word and a bracket before it and with a hyphen and a word
behind it. -/
theorem assign_grows_storm :
    let pairs : List RulePair :=
      [(some "(sea+storm*", some " Nature "), (none, some "Lost"), (some "sto", some "Shop")]
    let p := Policy.new (.text "terms") (.text "class") 4
    let e := Engine.new fun _ => none
    ((p.assign pairs (some "(Sea) storms")).run e).result = .ok ["Nature"] ∧
      ∃ more : List Text, ((p.assign pairs (some "Old [(Sea) storms-again")).run e).result = .ok more ∧
        Text.ofString "Nature" ∈ more := by
  intro pairs p e
  have hbefore : (Text.ofString "Old [").getLast? = some ('[' : Char) := by decide
  have hbehind : (Text.ofString "-again").head? = some ('-' : Char) := by decide
  obtain ⟨labels, more, hsubset, hresult⟩ := assign_grows (fun _ => none) pairs (u := "Old [")
    (v := "-again") (fun c hc => by obtain rfl := Option.some.inj (hbefore.symm.trans hc); decide)
    (fun c hc => by obtain rfl := Option.some.inj (hbehind.symm.trans hc); decide) "(Sea) storms"
  obtain ⟨hlabels, hmore⟩ := hresult (.text "terms") (.text "class") 4 []
  have hfound : ((p.assign pairs (some "(Sea) storms")).run e).result.toOption =
      some [Text.ofString "Nature"] := by decide +kernel
  obtain rfl : labels = [Text.ofString "Nature"] :=
    Option.some.inj ((congrArg Except.toOption hlabels).symm.trans hfound)
  exact ⟨hlabels, more, hmore, hsubset List.mem_cons_self⟩

end Policy

end TitleClasses
