import MarkupTemplate.Proofs.CallSite.Gaps
import MarkupTemplate.Proofs.Template.Injection

/-!
# Call sites and placeholders

A call site can also be written as markup with placeholders, named after the gaps. Where nothing in
the fragments looks like a gap, it is compiled to the same template as that markup, but for the
names of the gaps; and it is refused exactly when that markup is, or when the placeholder of a gap
is not there once.

Both texts are the same sketch, so they are read to the same trees with gaps (`run_agree`), and
these have the same skeleton and descriptors (`skeleton_draw`, `descriptors_draw`).

Results:
* `parse_agree`: both texts are read to the same trees with gaps, or no template comes of them.
* `instantiate_rename`: renaming expressions does not change the instances.
* `compile_agrees`: the two ways of writing agree.
-/

namespace MarkupTemplate

/-! ## Call sites with placeholders -/

/-- The placeholder of gap `k`. -/
def Gap.placeholder (k : Nat) : String :=
  (Token.expression (key k)).written

/-- The template with its expressions renamed by `ρ`. -/
def Template.rename (ρ : String → String) (t : Template) : Template :=
  ⟨t.skeleton, t.descriptors.map (Descriptor.rename ρ)⟩

/-- How often an expression turns up in the descriptors. -/
def Template.occurrences (t : Template) (e : String) : Nat :=
  (t.descriptors.flatMap Descriptor.gapNumbers).count e

namespace CallSite

/-- The given fragments, each with the placeholder of a gap before it; the first gap is `k`. -/
def placeholdersFrom (k : Nat) : List String → String
  | [] => ""
  | f :: fs => Gap.placeholder k ++ f ++ placeholdersFrom (k + 1) fs

/-- The fragments as one text, with placeholders between them. -/
def placeholderMarkup (site : CallSite) : String :=
  match site.fragments with
  | [] => ""
  | f :: fs => f ++ placeholdersFrom 0 fs

/-- The template has every gap of the call site once. -/
def HasGaps (site : CallSite) (t : Template) : Prop :=
  ∀ k < site.gapCount, t.occurrences (Gap.key k) = 1

/-- The fragments from gap `k` on, each with the gap before it. -/
def tailFrom (k : Nat) : List String → List (Nat × List Char)
  | [] => []
  | f :: fs => (k, f.toList) :: tailFrom (k + 1) fs

/-- The call site as a text with gaps. -/
def sketch (site : CallSite) : Sketch :=
  match site.fragments with
  | [] => ⟨[], []⟩
  | f :: fs => ⟨f.toList, tailFrom 0 fs⟩

theorem toList_placeholder (k : Nat) : (Gap.placeholder k).toList = Style.placeholder.hole k := by
  unfold Gap.placeholder Token.written
  rw [String.toList_append, String.toList_append, Style.hole]
  rfl

theorem writeTail_marker (k : Nat) (fs : List String) :
    Style.marker.writeTail (tailFrom k fs) = markupFrom k fs := by
  induction fs generalizing k with
  | nil => rfl
  | cons f fs ih =>
    unfold tailFrom
    rw [Style.writeTail_cons, ih, markupFrom, List.append_assoc]
    rfl

theorem writeTail_placeholder (k : Nat) (fs : List String) :
    Style.placeholder.writeTail (tailFrom k fs) = (placeholdersFrom k fs).toList := by
  induction fs generalizing k with
  | nil => rfl
  | cons f fs ih =>
    unfold tailFrom
    rw [Style.writeTail_cons, ih, placeholdersFrom, String.toList_append, String.toList_append,
      toList_placeholder, List.append_assoc]

theorem write_sketch_marker (site : CallSite) : site.sketch.write .marker = site.markup := by
  obtain ⟨id, fragments⟩ := site
  cases fragments with
  | nil => rfl
  | cons f fs => exact congrArg (f.toList ++ ·) (writeTail_marker 0 fs)

theorem write_sketch_placeholder (site : CallSite) :
    site.sketch.write .placeholder = site.placeholderMarkup.toList := by
  obtain ⟨id, fragments⟩ := site
  cases fragments with
  | nil => rfl
  | cons f fs =>
    unfold placeholderMarkup
    rw [String.toList_append, ← writeTail_placeholder]
    rfl

theorem map_fst_tailFrom (k : Nat) (fs : List String) :
    (tailFrom k fs).map Prod.fst = List.range' k fs.length := by
  induction fs generalizing k with
  | nil => rfl
  | cons f fs ih =>
    unfold tailFrom
    rw [List.map_cons, ih, List.length_cons, List.range'_succ]

theorem map_snd_tailFrom (k : Nat) (fs : List String) :
    (tailFrom k fs).map Prod.snd = fs.map String.toList := by
  induction fs generalizing k with
  | nil => rfl
  | cons f fs ih =>
    unfold tailFrom
    rw [List.map_cons, ih, List.map_cons]

theorem gaps_sketch (site : CallSite) : site.sketch.gaps = List.range' 0 site.gapCount := by
  obtain ⟨id, fragments⟩ := site
  cases fragments with
  | nil => rfl
  | cons f fs => exact map_fst_tailFrom 0 fs

/-- A call site whose fragments may stand between gaps has a sketch that obeys the policy, with the
gaps of the site. -/
theorem allowed_sketch {P : Sketch.Policy} {site : CallSite}
    (h : ∀ f ∈ site.fragments, P.part f.toList) :
    site.sketch.Allowed P (· < site.gapCount) := by
  refine ⟨fun p hp => ?_, fun k hk => ?_⟩
  · obtain ⟨id, fragments⟩ := site
    cases fragments with
    | nil =>
      obtain rfl := List.mem_singleton.1 hp
      exact P.nil
    | cons f fs =>
      have hparts : (CallSite.sketch ⟨id, f :: fs⟩).parts = (f :: fs).map String.toList :=
        congrArg (f.toList :: ·) (map_snd_tailFrom 0 fs)
      rw [hparts] at hp
      obtain ⟨g, hg, rfl⟩ := List.mem_map.1 hp
      exact h g hg
  · rw [gaps_sketch] at hk
    simpa using List.mem_range'_1.1 hk

/-- The two texts are read to the same trees with gaps, or both are refused, or there is a gap that
neither has in its trees. -/
def ReadAlike (P : Sketch.Policy) (site : CallSite) : Prop :=
  (∃ F, Sketch.AllowedIn P (· < site.gapCount) F ∧
      Markup.parse (String.ofList site.markup) = .ok (Style.marker.draw F) ∧
      Markup.parse site.placeholderMarkup = .ok (Style.placeholder.draw F)) ∨
    ((∀ f, Markup.parse (String.ofList site.markup) ≠ .ok f) ∧
      ∀ f, Markup.parse site.placeholderMarkup ≠ .ok f) ∨
    ∃ k < site.gapCount,
      (∀ f, Markup.parse (String.ofList site.markup) = .ok f → ∃ F,
        Sketch.AllowedIn P (fun j => j < site.gapCount ∧ j ≠ k) F ∧ f = Style.marker.draw F) ∧
      ∀ f, Markup.parse site.placeholderMarkup = .ok f → ∃ F,
        Sketch.AllowedIn P (fun j => j < site.gapCount ∧ j ≠ k) F ∧
        f = Style.placeholder.draw F

/-- **The two texts are read alike.** -/
theorem parse_agree_of {P : Sketch.Policy} {site : CallSite}
    (h : ∀ f ∈ site.fragments, P.part f.toList) : site.ReadAlike P := by
  have hmarker : Markup.parse (String.ofList site.markup) =
      Sketch.State.run .marker ⟨[], .nil⟩ (site.sketch.write .marker) := by
    unfold Markup.parse
    rw [String.toList_ofList, write_sketch_marker]
    rfl
  have hplaceholder : Markup.parse site.placeholderMarkup =
      Sketch.State.run .placeholder ⟨[], .nil⟩ (site.sketch.write .placeholder) := by
    unfold Markup.parse
    rw [write_sketch_placeholder]
    rfl
  have hn : site.sketch.gaps.Nodup := by
    rw [gaps_sketch]
    exact List.nodup_range'
  have hempty : Sketch.State.Allowed P (fun k => k < site.gapCount ∧ k ∉ site.sketch.gaps)
      ⟨[], .nil⟩ :=
    ⟨fun _ hfr => absurd hfr List.not_mem_nil, Sketch.allowedIn_nil⟩
  unfold ReadAlike
  rw [hmarker, hplaceholder]
  rcases Sketch.run_agree hempty (allowed_sketch h) hn with
    ⟨F, hF, hrun⟩ | hno | ⟨k, hk, hlost⟩
  · exact .inl ⟨F, hF, hrun .marker, hrun .placeholder⟩
  · exact .inr (.inl ⟨hno .marker, hno .placeholder⟩)
  · exact .inr (.inr ⟨k, hk, hlost .marker, hlost .placeholder⟩)

/-- So they are where nothing in the fragments could be mistaken for a gap. -/
theorem parse_agree {site : CallSite}
    (h : ∀ f ∈ site.fragments, Sketch.IsCleanPart f.toList) : site.ReadAlike .clean :=
  parse_agree_of h

/-! ## Templates -/

/-- A gap turns up as often under its number as under its name. -/
theorem exists_gaps {G : Nat → Prop} (hG : ∀ k, G k → k < UInt64.size) {F : Forest Sketch.Node}
    (hF : Sketch.AllowedIn .clean G F) :
    ∃ ks : List Nat, (∀ k ∈ ks, G k) ∧
      ((Style.marker.draw F).gapDescriptors 0).flatMap Descriptor.gapNumbers = ks.map toString ∧
      ∀ k, (Template.ofTree (.ofFragment (Style.placeholder.draw F))).occurrences (Gap.key k) =
        ks.count k := by
  have hlift : ∀ es : List String, (∀ e ∈ es, ∃ k, G k ∧ e = toString k) →
      ∃ ks : List Nat, (∀ k ∈ ks, G k) ∧ es = ks.map toString := by
    intro es hes
    induction es with
    | nil => exact ⟨[], fun _ hk => absurd hk List.not_mem_nil, rfl⟩
    | cons e es ih =>
      obtain ⟨ks, hks, rfl⟩ := ih fun x hx => hes x (List.mem_cons_of_mem e hx)
      obtain ⟨k, hk, rfl⟩ := hes e List.mem_cons_self
      exact ⟨k :: ks, List.forall_mem_cons.2 ⟨hk, hks⟩, rfl⟩
  obtain ⟨ks, hks, hnumbers⟩ := hlift _ fun e he => exists_gap_of_mem hG hF he
  refine ⟨ks, hks, hnumbers, ?_⟩
  intro k
  have hdescriptors : (Template.ofTree (.ofFragment (Style.placeholder.draw F))).descriptors =
      ((Style.marker.draw F).gapDescriptors 0).map (Descriptor.rename Gap.rename) :=
    descriptors_draw hG hF 0
  have hkeys : (ks.map toString).map Gap.rename = ks.map Gap.key := List.map_map
  unfold Template.occurrences
  rw [hdescriptors, flatMap_gapNumbers_rename, hnumbers, hkeys,
    List.count_map_of_injective _ _ Gap.key_injective]

/-- Trees with gaps have a template when each gap of the call site turns up once. -/
theorem occupyAll_draw {site : CallSite} (hcount : site.fragments.length ≤ UInt64.size)
    {G : Nat → Prop} (hG : ∀ k, G k → k < site.gapCount) {F : Forest Sketch.Node}
    (hF : Sketch.AllowedIn .clean G F) :
    Gap.occupyAll site.gapCount
        (((Style.marker.draw F).gapDescriptors 0).flatMap Descriptor.gapNumbers) = .ok () ↔
      site.HasGaps (Template.ofTree (.ofFragment (Style.placeholder.draw F))) := by
  have hgaps : site.gapCount ≤ UInt64.size := Nat.le_trans (Nat.sub_le _ 1) hcount
  obtain ⟨ks, hks, hnumbers, hoccurrences⟩ :=
    exists_gaps (fun k hk => Nat.lt_of_lt_of_le (hG k hk) hgaps) hF
  rw [hnumbers, Gap.occupyAll_eq_ok_iff hgaps fun k hk => hG k (hks k hk)]
  simp only [HasGaps, hoccurrences]

/-- Trees that a gap is missing from have no template. -/
theorem not_hasGaps_draw {site : CallSite} (hcount : site.fragments.length ≤ UInt64.size) {k : Nat}
    (hk : k < site.gapCount) {F : Forest Sketch.Node}
    (hF : Sketch.AllowedIn .clean (fun j => j < site.gapCount ∧ j ≠ k) F) :
    ¬site.HasGaps (Template.ofTree (.ofFragment (Style.placeholder.draw F))) := by
  intro h
  have hgaps : site.gapCount ≤ UInt64.size := Nat.le_trans (Nat.sub_le _ 1) hcount
  obtain ⟨ks, hks, -, hoccurrences⟩ :=
    exists_gaps (fun j hj => Nat.lt_of_lt_of_le hj.1 hgaps) hF
  have hnone : ks.count k = 0 := List.count_eq_zero_of_not_mem fun hm => (hks k hm).2 rfl
  have hone := h k hk
  rw [hoccurrences, hnone] at hone
  cases hone

/-! ## Instances -/

/-- **Renamed templates have the same instances** where the renamed expressions have the same
values. -/
theorem instantiate_rename {t : Template} (ht : t.Authored) {ρ : String → String} {v w : Value}
    (hv : v.isNull = false) (hw : w.isNull = false)
    (h : ∀ e ∈ t.descriptors.flatMap Descriptor.gapNumbers, w.at? (ρ e) = v.at? e)
    {d d' : Document} (hd : d.WellFormed) (hd' : d'.WellFormed) :
    ∃ e i e' i', t.instantiate d (some v) = (e, .ok i) ∧
      (t.rename ρ).instantiate d' (some w) = (e', .ok i') ∧
      e.shape? i.root = e'.shape? i'.root ∧ (e.shape? i.root).isSome := by
  obtain ⟨k, hk, -, hfits⟩ := ht.exists_skeleton
  have hreach : ∀ s ∈ (t.rename ρ).descriptors, s.Reaches (.ofFragment k) := by
    intro s hs
    obtain ⟨x, hx, rfl⟩ := List.mem_map.1 hs
    exact (hfits x hx).reaches
  obtain ⟨e, i, hi, -, hshape⟩ :=
    Template.instantiate_attached hk (fun s hs => (hfits s hs).reaches) hd (some v)
  obtain ⟨e', i', hi', -, hshape'⟩ :=
    Template.instantiate_attached (t := t.rename ρ) hk hreach hd' (some w)
  have hfill : (Tree.ofFragment k).fillGiven (some w) (t.rename ρ).descriptors =
      (Tree.ofFragment k).fillGiven (some v) t.descriptors := by
    simp only [Tree.fillGiven, hv, hw, Bool.false_eq_true, if_false]
    exact Tree.fill_rename h _
  refine ⟨e, i, e', i', hi, hi', ?_, by rw [hshape]; rfl⟩
  rw [hshape, hshape', hfill]

/-- **Call sites and placeholders agree.** A call site whose fragments hold nothing that a gap could
be mistaken for has a template exactly when its markup with placeholders has one in which each gap
turns up once. The two templates differ in the names of the gaps alone, so an instance is the same
whether the gaps have their values from a list or from a record. A machine counts the fragments in a
word, which bounds how many there are. -/
theorem compile_agrees (site : CallSite) (hcount : site.fragments.length ≤ UInt64.size)
    (hfragments : ∀ f ∈ site.fragments, '{' ∉ f.toList ∧ ¬Gap.markerText <:+: f.toList) :
    ((∃ t, site.compile = .ok t) ↔
      ∃ t', Template.ofMarkup site.placeholderMarkup = .ok t' ∧ site.HasGaps t') ∧
    ∀ t t', site.compile = .ok t → Template.ofMarkup site.placeholderMarkup = .ok t' →
      t' = t.rename Gap.rename ∧
      ∀ vs : List Value, vs.length = site.gapCount →
        ∀ d d' : Document, d.WellFormed → d'.WellFormed →
          ∃ e i e' i', t.instantiate d (some (.array vs)) = (e, .ok i) ∧
            t'.instantiate d' (some (Gap.record vs)) = (e', .ok i') ∧
            e.shape? i.root = e'.shape? i'.root ∧ (e.shape? i.root).isSome := by
  have hgaps : site.gapCount ≤ UInt64.size := Nat.le_trans (Nat.sub_le _ 1) hcount
  rcases parse_agree hfragments with ⟨F, hF, hm, hp⟩ | ⟨hm, hp⟩ | ⟨k, hk, hm, hp⟩
  · -- both texts are read, to the same trees with gaps
    have hG : ∀ k < site.gapCount, k < UInt64.size := fun k hk => Nat.lt_of_lt_of_le hk hgaps
    have hiff := occupyAll_draw hcount (fun _ hk => hk) hF
    refine ⟨⟨fun ⟨t, ht⟩ => ?_, fun ⟨t', ht', hhas⟩ => ?_⟩, fun t t' ht ht' => ?_⟩
    · obtain ⟨f, hf, hoccupy, -⟩ := compile_eq_ok_iff.1 ht
      obtain rfl := Except.ok.inj (hm.symm.trans hf)
      exact ⟨_, Template.ofMarkup_eq_ok_iff.2 ⟨_, hp, rfl⟩, hiff.1 hoccupy⟩
    · obtain ⟨f, hf, rfl⟩ := Template.ofMarkup_eq_ok_iff.1 ht'
      obtain rfl := Except.ok.inj (hp.symm.trans hf)
      exact ⟨_, compile_eq_ok_iff.2 ⟨_, hm, hiff.2 hhas, rfl⟩⟩
    · obtain ⟨f, hf, -, hcompiled⟩ := compile_eq_ok_iff.1 ht
      obtain rfl := Except.ok.inj (hm.symm.trans hf)
      obtain ⟨f, hf, rfl⟩ := Template.ofMarkup_eq_ok_iff.1 ht'
      obtain rfl := Except.ok.inj (hp.symm.trans hf)
      have hrename : Template.ofTree (.ofFragment (Style.placeholder.draw F)) =
          t.rename Gap.rename := by
        rw [hcompiled, Template.rename, ← skeleton_draw hG hF, ← descriptors_draw hG hF]
        rfl
      refine ⟨hrename, ?_⟩
      intro vs hvs d d' hd hd'
      rw [hrename]
      refine instantiate_rename (.ofCallSite ht) rfl rfl (fun e he => ?_) hd hd'
      rw [hcompiled] at he
      obtain ⟨k, hk, rfl⟩ := exists_gap_of_mem hG hF he
      rw [Value.at?_array (hG k hk), ← Value.at?_record (hvs ▸ hk)]
      rfl
  · -- both texts are refused
    refine ⟨⟨fun ⟨t, ht⟩ => ?_, fun ⟨t', ht', _⟩ => ?_⟩, fun t t' ht _ => ?_⟩
    · obtain ⟨f, hf, -⟩ := compile_eq_ok_iff.1 ht
      exact absurd hf (hm f)
    · obtain ⟨f, hf, -⟩ := Template.ofMarkup_eq_ok_iff.1 ht'
      exact absurd hf (hp f)
    · obtain ⟨f, hf, -⟩ := compile_eq_ok_iff.1 ht
      exact absurd hf (hm f)
  · -- the gap `k` is in neither template
    have hno : ∀ t, site.compile ≠ .ok t := by
      intro t ht
      obtain ⟨f, hf, hoccupy, -⟩ := compile_eq_ok_iff.1 ht
      obtain ⟨F, hF, rfl⟩ := hm f hf
      have hiff := occupyAll_draw hcount (fun _ hj => And.left hj) hF
      exact not_hasGaps_draw hcount hk hF (hiff.1 hoccupy)
    refine ⟨⟨fun ⟨t, ht⟩ => absurd ht (hno t), fun ⟨t', ht', hhas⟩ => ?_⟩,
      fun t _ ht _ => absurd ht (hno t)⟩
    obtain ⟨f, hf, rfl⟩ := Template.ofMarkup_eq_ok_iff.1 ht'
    obtain ⟨F, hF, rfl⟩ := hp f hf
    exact absurd hhas (not_hasGaps_draw hcount hk hF)

/-- A gap in a value and a gap in a text. -/
theorem compile_agrees_paragraph :
    let site : CallSite := ⟨0, ["<p t=\"", "\">", "</p>"]⟩
    let vs : List Value := [.string "a", .string "b"]
    ∃ t, site.compile = .ok t ∧
      Template.ofMarkup site.placeholderMarkup = .ok (t.rename Gap.rename) ∧
      ∃ e i e' i', t.instantiate .empty (some (.array vs)) = (e, .ok i) ∧
        (t.rename Gap.rename).instantiate .empty (some (Gap.record vs)) = (e', .ok i') ∧
        e.shape? i.root = e'.shape? i'.root ∧ (e.shape? i.root).isSome := by
  intro site vs
  let f : Forest Content :=
    .cons (.element { tag := "p", attributes := .ofList [("t", "{g0}")] })
      (.cons (.text "{g1}") .nil .nil) .nil
  have hf : f.Printable := ⟨by decide, by decide⟩
  have hmarkup : site.placeholderMarkup = f.toMarkup := by decide
  have hp : Template.ofMarkup site.placeholderMarkup = .ok (.ofTree (.ofFragment f)) :=
    Template.ofMarkup_eq_ok_iff.2 ⟨f, by rw [hmarkup, Markup.parse_toMarkup hf], rfl⟩
  have hgaps : site.HasGaps (.ofTree (.ofFragment f)) := by
    intro k hk
    have hk : k = 0 ∨ k = 1 := by
      have : k < 2 := hk
      omega
    rcases hk with rfl | rfl
    · decide +kernel
    · decide +kernel
  obtain ⟨hiff, hsame⟩ := compile_agrees site (by decide) (by decide)
  obtain ⟨t, ht⟩ := hiff.2 ⟨_, hp, hgaps⟩
  obtain ⟨hrename, hinstances⟩ := hsame t _ ht hp
  rw [hrename] at hp hinstances
  exact ⟨t, ht, hp, hinstances vs rfl .empty .empty Document.wellFormed_empty
    Document.wellFormed_empty⟩

end CallSite

end MarkupTemplate
