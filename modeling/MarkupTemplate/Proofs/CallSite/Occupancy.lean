import MarkupTemplate.Proofs.CallSite.Gaps
import MarkupTemplate.Proofs.Template.Injection
import MarkupTemplate.Proofs.Template.Slots

/-!
# Each gap is bound once

The descriptors of a call site are found on one walk through its markup, and the gaps that they
name are ticked off on the way. A call site that is compiled has a descriptor for each gap, whatever
its fragments are: texts that look like markers, attributes that are written twice and numbers that
are too large either end the compilation or are as good as the markers between the fragments.

As in any template, the descriptors come in the order of their addresses, and each address leads to
a place that the skeleton keeps for its descriptor; so the template has instances in all documents.

Results:
* `Forest.pairwise_gapDescriptors`: descriptors come in the order of their addresses.
* `CallSite.gaps_are_bound_once`: what holds of the template of every call site that is compiled.
-/

namespace MarkupTemplate

/-! ## Order -/

/-- The attributes of an element have different names. -/
theorem Forest.pairwise_ownGaps (c : Content) : (ownGaps c).Pairwise Descriptor.Precedes := by
  cases c with
  | text s => exact .nil
  | fragment => exact .nil
  | comment s =>
    simp only [ownGaps]
    split
    · exact List.pairwise_singleton _ _
    · exact .nil
  | element e =>
    refine List.pairwise_filterMap.2 ((List.pairwise_map.1 e.attributes.nodup).imp ?_)
    rintro a b hne s hs s' hs'
    obtain ⟨tokens, -, rfl⟩ := Option.map_eq_some_iff.1 hs
    obtain ⟨tokens', -, rfl⟩ := Option.map_eq_some_iff.1 hs'
    exact .inr ⟨rfl, hne⟩

theorem Forest.address_of_mem_ownGaps {c : Content} {s : Descriptor} (hs : s ∈ ownGaps c) :
    s.address = .root := by
  cases c with
  | text x => cases hs
  | fragment => cases hs
  | comment x =>
    simp only [ownGaps] at hs
    split at hs
    · rw [List.mem_singleton.1 hs]
    · cases hs
  | element e =>
    obtain ⟨a, -, hs⟩ := List.mem_filterMap.1 hs
    obtain ⟨tokens, -, rfl⟩ := Option.map_eq_some_iff.1 hs
    rfl

/-- The descriptors of siblings start with the places of these siblings. -/
theorem Forest.within_gapDescriptors (f : Forest Content) (offset : Nat) :
    ∀ s ∈ f.gapDescriptors offset, s.Within offset (offset + f.width) := by
  induction f generalizing offset with
  | nil => exact fun s hs => absurd hs List.not_mem_nil
  | cons a below beside _ ih =>
    intro s hs
    rw [width]
    rcases List.mem_append.1 hs with hs | hs
    · exact (Descriptor.within_map_nested _ offset s hs).mono (Nat.le_refl _) (by omega)
    · exact (ih (offset + 1) s hs).mono (Nat.le_succ offset) (by omega)

/-- **Descriptors come in the order of their addresses.** -/
theorem Forest.pairwise_gapDescriptors (f : Forest Content) (offset : Nat) :
    (f.gapDescriptors offset).Pairwise Descriptor.Precedes := by
  induction f generalizing offset with
  | nil => exact .nil
  | cons a below beside ih₁ ih₂ =>
    have hown : (ownGaps a ++ below.gapDescriptors 0).Pairwise Descriptor.Precedes :=
      List.pairwise_append.2 ⟨pairwise_ownGaps a, ih₁ 0, fun s hs s' hs' =>
        (below.within_gapDescriptors 0 s' hs').precedes_of_root (address_of_mem_ownGaps hs)⟩
    rw [gapDescriptors, List.pairwise_append]
    refine ⟨hown.map _ fun s s' hs => hs.nested offset, ih₂ (offset + 1), fun s hs s' hs' => ?_⟩
    exact (Descriptor.within_map_nested _ offset s hs).precedes
      (beside.within_gapDescriptors (offset + 1) s' hs')

namespace CallSite

/-! ## Compiled call sites -/

theorem unsigned?_of_ofNumber {e : String} {k : Nat} (h : Gap.ofNumber e = .ok k) :
    Numeral.unsigned? e.toList = some k := by
  unfold Gap.ofNumber at h
  split at h
  · next gap hgap => rw [hgap, Except.ok.inj h]
  · cases h

/-- **The number of a gap names a value**: in a list, the one at its place. -/
theorem map_at?_array {numbers : List String} {ks : List Nat}
    (h : numbers.mapM Gap.ofNumber = .ok ks) (vs : List Value) :
    numbers.map (fun e => (Value.array vs).at? e) = ks.map fun k => vs[k]? := by
  induction numbers generalizing ks with
  | nil =>
    obtain rfl := Except.ok.inj h
    rfl
  | cons e numbers ih =>
    obtain ⟨k, rest, hk, hrest, rfl⟩ := mapM_cons_eq_ok_iff.1 h
    rw [List.map_cons, List.map_cons, ih hrest,
      Value.at?_array_of_unsigned? (unsigned?_of_ofNumber hk)]

/-- **A call site that is compiled binds each gap once, and always has instances.** The numbers in
its descriptors name its gaps, each of them once, and a number has the value of its gap in every
list of values. Each address leads to a place that the skeleton keeps for its descriptor: an empty
text, or an attribute that is there and empty; and no two descriptors name the same text or
attribute. So in any document an instance can be made, with any data or none. It is bound to as many
different texts and attributes, and it is the skeleton filled with the data. -/
theorem gaps_are_bound_once {site : CallSite} {t : Template} (ht : site.compile = .ok t) :
    let numbers := t.descriptors.flatMap Descriptor.gapNumbers
    (∃ ks, numbers.mapM Gap.ofNumber = .ok ks ∧ ks.Perm (List.range site.gapCount) ∧
        ∀ vs, numbers.map (fun e => (Value.array vs).at? e) = ks.map fun k => vs[k]?) ∧
      ∃ k, t.skeleton = some k ∧
        (∀ s ∈ t.descriptors, ∃ x, k.resolve s.address = .ok x ∧ s.target.Vacant x.label) ∧
        (t.descriptors.Pairwise fun s s' => s.address = s'.address → s.target.Apart s'.target) ∧
        ∀ (d : Document) (data : Option Value), d.WellFormed →
          ∃ d' i, t.instantiate d data = (d', .ok i) ∧
            d'.bindAll i.root t.descriptors = .ok i.updater.bindings ∧
            (i.updater.bindings.Pairwise fun b b' => b.node = b'.node → b.target.Apart b'.target) ∧
            d'.shape? i.root = some (k.fillGiven data t.descriptors) := by
  intro numbers
  obtain ⟨f, -, hoccupy, rfl⟩ := compile_eq_ok_iff.1 ht
  obtain ⟨ks, hks, hperm⟩ := Gap.occupyAll_eq_ok_iff_perm.1 hoccupy
  have hvacant : ∀ s ∈ f.gapDescriptors 0, s.Vacant (.ofFragment (f.map Forest.withoutGaps)) :=
    f.vacant_gapDescriptors .fragment .nil
  have horder := f.pairwise_gapDescriptors 0
  refine ⟨⟨ks, hks, hperm, map_at?_array hks⟩, .ofFragment (f.map Forest.withoutGaps), rfl,
    fun s hs => (hvacant s hs).exists_resolve, horder.imp Descriptor.Precedes.apart,
    fun d data hd => ?_⟩
  obtain ⟨d', i, hmade, hattached, hshape⟩ :=
    Template.instantiate_attached rfl (t := ⟨_, f.gapDescriptors 0⟩)
      (fun s hs => (hvacant s hs).fits.reaches) hd data
  exact ⟨d', i, hmade, hattached.bound,
    hattached.wellFormed.pairwise_bindAll horder hattached.bound, hshape⟩

/-- Two gaps in one attribute, and a third one in a text. -/
theorem gaps_are_bound_once_paragraph :
    let site : CallSite := ⟨0, ["<p t=\"", "-", "\">", "</p>"]⟩
    ∃ t, site.compile = .ok t ∧
      t.descriptors.map Descriptor.target =
        [.attributeValue "t" [.expression "0", .static "-", .expression "1"], .textContent "2"] ∧
      ∃ ks, (t.descriptors.flatMap Descriptor.gapNumbers).mapM Gap.ofNumber = .ok ks ∧
        ks.Perm [0, 1, 2] ∧ ∃ d' i, t.instantiate .empty none = (d', .ok i) := by
  intro site
  let f : Forest Content :=
    let value := "<!--stamp-marker:0-->-<!--stamp-marker:1-->"
    .cons (.element { tag := "p", attributes := .ofList [("t", value)] })
      (.cons (.comment "stamp-marker:2") .nil .nil) .nil
  have hf : f.Printable := ⟨by decide +kernel, by decide⟩
  have ht : site.compile =
      .ok ⟨some (.ofFragment (f.map Forest.withoutGaps)), f.gapDescriptors 0⟩ := by
    refine compile_eq_ok_iff.2 ⟨f, ?_, by decide +kernel, rfl⟩
    rw [show String.ofList _ = f.toMarkup by decide +kernel, Markup.parse_toMarkup hf]
  obtain ⟨⟨ks, hks, hperm, -⟩, k, -, -, -, hinstances⟩ := gaps_are_bound_once ht
  obtain ⟨d', i, hmade, -⟩ := hinstances .empty none Document.wellFormed_empty
  exact ⟨_, ht, by decide +kernel, ks, hks, hperm, d', i, hmade⟩

end CallSite

end MarkupTemplate
