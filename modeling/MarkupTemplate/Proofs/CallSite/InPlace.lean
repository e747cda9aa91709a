import MarkupTemplate.Proofs.CallSite.Occupancy
import MarkupTemplate.Proofs.Document.Order
import MarkupTemplate.Proofs.Document.Retouch

/-!
# Compiling in place

A call site can be compiled by one walk over the nodes of its markup. The walk ticks off the gap of
each marker that it meets, notes a descriptor with the address of the node, and takes the marker
away: a new empty text takes the place of a comment, and an attribute is emptied
(`CallSite.compileInPlace`). The document changes while addresses are read from it.

A visit only changes the node that it is at, and leaves it where it stands. So the nodes that are
still to be visited have the addresses that they had at the start (`Document.Retouched`), and the
walk comes to what `CallSite.compile` reads off the markup at once: the same skeleton and the same
descriptors in the same order, or the first thing that is wrong with the gaps. What else could go
wrong on a walk never does.

Results:
* `Gap.occupyAll_eq_finish`: ticking off gaps is taking them one after the other.
* `Draft.visit_eq`: what a visit to one node does.
* `Draft.foldlM_visit`: what a walk over some of the nodes does.
* `CallSite.compileInPlace_eq`: compiling in place comes to the same as compiling.
-/

namespace MarkupTemplate

theorem mapError_foldlM {α β ε ε' : Type} (g : ε → ε') (step : β → α → Except ε β) (b : β)
    (l : List α) :
    l.foldlM (fun b a => (step b a).mapError g) b = (l.foldlM step b).mapError g := by
  induction l generalizing b with
  | nil => rfl
  | cons a l ih =>
    rw [List.foldlM_cons, List.foldlM_cons]
    cases step b a with
    | error e => rfl
    | ok b' => exact ih b'

theorem eq_some_of_mem_zip {α β : Type} {g : α → Option β} {l : List α} {m : List β}
    (h : l.map g = m.map some) : ∀ x ∈ l.zip m, g x.1 = some x.2 := by
  induction l generalizing m with
  | nil => exact fun x hx => absurd hx List.not_mem_nil
  | cons a l ih =>
    cases m with
    | nil => exact fun x hx => absurd hx List.not_mem_nil
    | cons b m =>
      obtain ⟨hab, h⟩ := List.cons.inj h
      exact List.forall_mem_cons.2 ⟨hab, ih h⟩

/-! ## Flags -/

namespace Gap

/-- Sets the flag of a gap, if the gap has one and it is not set. -/
def flag (flags : List Bool) (gap : Nat) : Except Disorder (List Bool) :=
  match flags[gap]? with
  | some false => .ok (flags.set gap true)
  | some true => .error (.repeated gap)
  | none => .error (.unknown gap)

/-- Sets the flag of the gap that a marker's number names. -/
def flagNumber (flags : List Bool) (digits : String) : Except Disorder (List Bool) := do
  flag flags (← ofNumber digits)

/-- No flag may be left. -/
def finish (flags : List Bool) : Except Disorder Unit :=
  match flags.findIdx? (!·) with
  | some gap => .error (.misplaced gap)
  | none => .ok ()

/-- The flags of the gaps, where those in `taken` are set. -/
def flags (count : Nat) (taken : List Nat) : List Bool :=
  (List.range count).map fun gap => decide (gap ∈ taken)

theorem flags_nil (count : Nat) : flags count [] = List.replicate count false := by
  simp [flags, List.map_const']

/-- A flag is set where a gap may be taken. -/
theorem flag_flags (count : Nat) (taken : List Nat) (gap : Nat) :
    flag (flags count taken) gap =
      if count ≤ gap then .error (.unknown gap)
      else if gap ∈ taken then .error (.repeated gap)
      else .ok (flags count (taken ++ [gap])) := by
  have hget : (flags count taken)[gap]? =
      if count ≤ gap then none else some (decide (gap ∈ taken)) := by
    rw [flags, List.getElem?_map]
    split
    · next h => rw [List.getElem?_eq_none (by simpa using h), Option.map_none]
    · next h => rw [List.getElem?_range (Nat.not_le.1 h), Option.map_some]
  have hset : (flags count taken).set gap true = flags count (taken ++ [gap]) := by
    refine List.ext_getElem (by simp [flags]) fun i hi hi' => ?_
    rw [List.getElem_set]
    by_cases h : gap = i
    · simp [flags, h]
    · simp [flags, h, Ne.symm h]
  unfold flag
  rw [hget, hset]
  by_cases hcount : count ≤ gap
  · simp [hcount]
  · by_cases htaken : gap ∈ taken <;> simp [hcount, htaken]

/-- **Setting flags is taking gaps.** -/
theorem foldlM_flagNumber (count : Nat) (taken : List Nat) (numbers : List String) :
    numbers.foldlM flagNumber (flags count taken) =
      (occupy count taken numbers).map (flags count) := by
  induction numbers generalizing taken with
  | nil => rfl
  | cons digits rest ih =>
    rw [List.foldlM_cons, occupy, flagNumber]
    cases ofNumber digits with
    | error e => rfl
    | ok gap =>
      show (flag (flags count taken) gap >>= fun fs => rest.foldlM flagNumber fs) = _
      rw [flag_flags]
      by_cases hcount : count ≤ gap
      · simp [hcount, bind, Except.bind, Except.map, throw, throwThe, MonadExceptOf.throw]
      · by_cases htaken : gap ∈ taken
        · simp [hcount, htaken, bind, Except.bind, Except.map, throw, throwThe, MonadExceptOf.throw]
        · simpa [hcount, htaken, bind, Except.bind] using ih (taken ++ [gap])

theorem findIdx?_flags (count : Nat) (taken : List Nat) :
    (flags count taken).findIdx? (!·) = (List.range count).find? (· ∉ taken) := by
  refine Option.ext fun gap => ?_
  rw [List.findIdx?_eq_some_iff_getElem, List.find?_range_eq_some]
  simp [flags]

/-- **The gaps are in order when all flags are set** one after the other. -/
theorem occupyAll_eq_finish (count : Nat) (numbers : List String) :
    occupyAll count numbers =
      (numbers.foldlM flagNumber (List.replicate count false)).bind finish := by
  rw [← flags_nil, foldlM_flagNumber, occupyAll]
  cases occupy count [] numbers with
  | error e => rfl
  | ok taken =>
    show _ = finish (flags count taken)
    rw [finish, findIdx?_flags]
    rfl

end Gap

/-! ## The walk -/

/-- What may end a walk. -/
inductive Obstacle where
  /-- The call site has no template. -/
  | compile (e : CompileError)
  /-- The marker of a gap is not under the root. -/
  | markerOutside (gap : Nat)
  /-- An element with a marker is not under the root. -/
  | elementOutside
  /-- A text cannot take the place of a marker. -/
  | tree (e : TreeError)

/-- A template in the making. -/
structure Draft where
  /-- The document with what is to be the skeleton. -/
  doc : Document
  /-- For each gap, whether it has turned up. -/
  flags : List Bool
  /-- The descriptors so far. -/
  descriptors : List Descriptor

/-- The attributes of an element that have a marker, with the tokens of their values. -/
def Element.markedAttributes (e : Element) : List (String × List Token) :=
  e.attributes.entries.filterMap fun a => (Forest.gapTokens? a.2).map (a.1, ·)

namespace Draft

/-- The flags of the gaps with that of a number set. -/
def tick (flags : List Bool) (digits : String) : Except Obstacle (List Bool) :=
  (Gap.flagNumber flags digits).mapError fun e => .compile (.gaps e)

/-- The address of a node from the root; there is an obstacle if it is not under the root. -/
def address (p : Draft) (root h : Handle) (otherwise : Obstacle) : Except Obstacle Address :=
  match p.doc.addressOf? root h with
  | some a => .ok a
  | none => .error otherwise

/-- Puts an empty text in the place of a marker. -/
def replaceMarker (root h : Handle) (gap : Nat) (p : Draft) : Except Obstacle Draft := do
  let address ← p.address root h (.markerOutside gap)
  let flags ← (Gap.flag p.flags gap).mapError fun e => .compile (.gaps e)
  let (made, slot) := p.doc.create (.text "")
  let (doc, replaced) := made.replaceChild h slot
  replaced.mapError .tree
  return ⟨doc, flags, p.descriptors ++ [⟨address, .textContent (toString gap)⟩]⟩

/-- Empties an attribute whose value has the given tokens. -/
def emptyAttribute (h : Handle) (address : Address) (p : Draft) (a : String × List Token) :
    Except Obstacle Draft := do
  let flags ← a.2.foldlM (fun flags t => match t with
    | .static _ => return flags
    | .expression digits => tick flags digits) p.flags
  return ⟨(p.doc.setAttribute h a.1 "").1, flags,
    p.descriptors ++ [⟨address, .attributeValue a.1 a.2⟩]⟩

/-- Takes the markers out of a node. -/
def visit (root : Handle) (p : Draft) (h : Handle) : Except Obstacle Draft :=
  match p.doc.content? h with
  | some (.comment s) =>
    match Gap.ofComment? s with
    | some gap => p.replaceMarker root h gap
    | none => return p
  | some (.element e) =>
    match e.markedAttributes with
    | [] => return p
    | marked => do
      let address ← p.address root h .elementOutside
      marked.foldlM (emptyAttribute h address) p
  | _ => return p

end Draft

/-- The template of a call site, made by a walk over the nodes of its markup. -/
def CallSite.compileInPlace (site : CallSite) : Except Obstacle Template :=
  match Markup.parse (String.ofList site.markup) with
  | .error e => .error (.compile (.markup e))
  | .ok f => do
    let (doc, root) := Document.empty.plant (.ofFragment f)
    let flags := List.replicate site.gapCount false
    let p ← (doc.descendants root).foldlM (Draft.visit root) ⟨doc, flags, []⟩
    (Gap.finish p.flags).mapError fun e => .compile (.gaps e)
    return ⟨p.doc.shape? root, p.descriptors⟩

namespace Draft

/-! ## One step -/

/-- The draft with descriptors added, after their gaps were ticked off one by one. -/
def extend (p : Draft) (doc : Document) (ss : List Descriptor) : Except Obstacle Draft := do
  let flags ← (ss.flatMap Descriptor.gapNumbers).foldlM tick p.flags
  return ⟨doc, flags, p.descriptors ++ ss⟩

theorem extend_nil (p : Draft) : p.extend p.doc [] = .ok p := by
  rw [extend, List.flatMap_nil, List.foldlM_nil, pure_bind, List.append_nil]
  rfl

/-- Adding twice is adding at once. -/
theorem extend_bind {p : Draft} {doc doc' : Document} {ss ss' : List Descriptor}
    {next : Draft → Except Obstacle Draft}
    (hnext : ∀ q : Draft, q.doc = doc → next q = q.extend doc' ss') :
    p.extend doc ss >>= next = p.extend doc' (ss ++ ss') := by
  unfold extend at hnext ⊢
  rw [List.flatMap_append, List.foldlM_append, bind_assoc, bind_assoc]
  refine bind_congr fun flags => ?_
  rw [pure_bind, hnext _ rfl, List.append_assoc]

theorem emptyAttribute_eq (h : Handle) (address : Address) (p : Draft) (a : String × List Token) :
    p.emptyAttribute h address a =
      p.extend (p.doc.setAttribute h a.1 "").1 [⟨address, .attributeValue a.1 a.2⟩] := by
  rw [emptyAttribute, extend, List.flatMap_singleton, Descriptor.gapNumbers, List.foldlM_filterMap]
  congr 2
  funext flags t
  cases t <;> rfl

/-- The attributes of a node are emptied one by one. -/
theorem foldlM_emptyAttribute (h : Handle) (address : Address) (p : Draft)
    (marked : List (String × List Token)) :
    marked.foldlM (emptyAttribute h address) p =
      p.extend (marked.foldl (fun d a => (d.setAttribute h a.1 "").1) p.doc)
        (marked.map fun a => ⟨address, .attributeValue a.1 a.2⟩) := by
  induction marked generalizing p with
  | nil => exact p.extend_nil.symm
  | cons a marked ih =>
    rw [List.foldlM_cons, emptyAttribute_eq]
    exact extend_bind fun q hq => (ih q).trans (by rw [hq, List.foldl_cons])

end Draft

/-! ## Emptying attributes -/

namespace Document

section

variable (d : Document) (h : Handle) (marked : List (String × List Token))

/-- Attributes are emptied as an update with no data does it. -/
theorem foldl_setAttribute :
    marked.foldl (fun d a => (d.setAttribute h a.1 "").1) d =
      d.assign (d.rewritten? .null (marked.map fun a => ⟨h, .attributeValue a.1 []⟩)) := by
  rw [← foldl_apply_eq_assign, List.foldl_map]
  rfl

/-- The other nodes are not written to. -/
theorem rewritten?_of_ne {x : Handle} (hx : x ≠ h) :
    d.rewritten? .null (marked.map fun a => ⟨h, .attributeValue a.1 []⟩) x = none := by
  have hnone : targetsOf (marked.map fun a => ⟨h, .attributeValue a.1 []⟩) x = [] := by
    rw [targetsOf, List.map_eq_nil_iff, List.filter_eq_nil_iff, List.forall_mem_map]
    exact fun a _ => by simpa using hx
  rw [rewritten?, hnone]
  cases d.content? x <;> rfl

theorem getD_rewritten? {e : Element} (hc : d.content? h = some (.element e)) :
    (d.rewritten? .null (marked.map fun a => ⟨h, .attributeValue a.1 []⟩) h).getD (.element e) =
      .element { e with attributes := e.attributes.setAll (marked.map fun a => (a.1, "")) } := by
  have htargets : targetsOf (marked.map fun a => ⟨h, .attributeValue a.1 []⟩) h =
      marked.map fun a => .attributeValue a.1 [] := by
    simp [targetsOf, List.filter_map, Function.comp_def]
  have hassignments : Target.assignments .null (marked.map fun a => .attributeValue a.1 []) =
      marked.map fun a => (a.1, "") := by
    rw [Target.assignments, List.filterMap_map]
    exact congrFun (List.filterMap_eq_map (f := fun a : String × List Token => (a.1, ""))) marked
  rw [rewritten?, hc, Option.bind_some, Target.getD_rewrite?, htargets, Target.writeAll_element,
    hassignments]

end

theorem WellFormed.foldl_setAttribute {d : Document} (hd : d.WellFormed) (h : Handle)
    (marked : List (String × List Token)) :
    (marked.foldl (fun d a => (d.setAttribute h a.1 "").1) d).WellFormed := by
  induction marked generalizing d with
  | nil => exact hd
  | cons a marked ih => exact ih (hd.writeNode h _)

end Document

/-! ## Descriptors on a walk -/

/-- The descriptor when the root has come to stand at an address from a new root. -/
def Descriptor.under (a : Address) (s : Descriptor) : Descriptor :=
  { s with address := ⟨a.places ++ s.address.places⟩ }

theorem Descriptor.under_root (a : Address) (t : Target) :
    (Descriptor.mk .root t).under a = ⟨a, t⟩ := by
  rw [under, Address.root, List.append_nil]

theorem Element.map_under_ownGaps (e : Element) (a : Address) :
    (Forest.ownGaps (.element e)).map (·.under a) =
      e.markedAttributes.map fun x => ⟨a, .attributeValue x.1 x.2⟩ := by
  rw [Forest.ownGaps, markedAttributes, List.map_filterMap, List.map_filterMap]
  simp only [Option.map_map, Function.comp_def, Descriptor.under_root]

/-- An element loses its markers when the attributes that have one are emptied. -/
theorem Element.withoutGaps_eq_setAll (e : Element) :
    Forest.withoutGaps (.element e) = .element { e with
      attributes := e.attributes.setAll (e.markedAttributes.map fun a => (a.1, "")) } := by
  have hmarked : e.markedAttributes.map (fun a => (a.1, "")) =
      (e.attributes.entries.filter fun a => (Forest.gapTokens? a.2).isSome).map fun a =>
        (a.1, "") := by
    rw [markedAttributes, List.map_filterMap]
    induction e.attributes.entries with
    | nil => rfl
    | cons a as ih =>
      rw [List.filterMap_cons, List.filter_cons, Option.map_map, ih]
      cases Forest.gapTokens? a.2 <;> rfl
  have hset := e.attributes.setAll_filter (fun v => (Forest.gapTokens? v).isSome) fun _ => ""
  rw [hmarked, hset]
  rfl

namespace Forest

/-- There is nothing under a comment. -/
theorem find?_of_comment {f : Forest Node} (hf : f.handles.Nodup) (hw : f.contents.Writable)
    {n : Node} (hn : n ∈ f.labels) {s : String} (hs : n.content = .comment s) :
    f.find? n.handle = some ⟨n, nil⟩ := by
  induction f with
  | nil => cases hn
  | cons a below beside ih₁ ih₂ =>
    obtain ⟨ha, ha', hbelow, hbeside, hdisjoint⟩ := nodup_handles_cons.1 hf
    rw [labels, List.mem_cons, List.mem_append] at hn
    rcases hn with rfl | hn | hn
    · obtain ⟨hself, -⟩ := hw
      rw [hs] at hself
      cases below with
      | nil => rw [find?, if_pos rfl]
      | cons b below beside => cases hself.2
    · have hmem : n.handle ∈ below.handles := List.mem_map_of_mem hn
      rw [find?_cons_of_ne fun e => ha (e ▸ hmem), ih₁ hbelow hw.below hn, Option.some_or]
    · have hmem : n.handle ∈ beside.handles := List.mem_map_of_mem hn
      have hnone : below.find? n.handle = none :=
        find?_eq_none_iff.2 fun hm => hdisjoint _ hm hmem
      rw [find?_cons_of_ne fun e => ha' (e ▸ hmem), hnone, Option.none_or, ih₂ hbeside hw.2 hn]

/-- **The descriptors of a forest are found on a walk**, each node's own at its place. -/
theorem gapDescriptors_eq_flatMap (f : Forest Content) (offset : Nat) :
    f.gapDescriptors offset =
      (f.labels.zip (f.walk offset)).flatMap fun x => (ownGaps x.1).map (·.under ⟨x.2⟩) := by
  induction f generalizing offset with
  | nil => rfl
  | cons a below beside ih₁ ih₂ =>
    have hbelow : below.labels.length = ((below.walk 0).map (offset :: ·)).length := by
      rw [List.length_map, length_walk]
    rw [gapDescriptors, ih₁, ih₂, labels, walk, List.zip_cons_cons, List.zip_append hbelow,
      List.flatMap_cons, List.flatMap_append, List.map_append, List.map_flatMap, List.append_assoc,
      List.zip_map_right, List.flatMap_map]
    simp only [List.map_map]
    rfl

end Forest

/-! ## Visits -/

namespace Draft

/-- A marker is replaced by a text, and its gap ticked off. -/
theorem replaceMarker_eq {p : Draft} {root h : Handle} {a : Address} {gap : Nat}
    (ha : p.address root h (.markerOutside gap) = .ok a) (hgap : gap < UInt64.size) {d' : Document}
    (hreplace : (p.doc.create (.text "")).1.replaceChild h (p.doc.create (.text "")).2 =
      (d', .ok ())) :
    p.replaceMarker root h gap = p.extend d' [⟨a, .textContent (toString gap)⟩] := by
  have htick : tick p.flags (toString gap) =
      (Gap.flag p.flags gap).mapError fun e => .compile (.gaps e) := by
    rw [tick, Gap.flagNumber, Gap.ofNumber_toString hgap]
    rfl
  have hnumbers : ([⟨a, .textContent (toString gap)⟩] : List Descriptor).flatMap
      Descriptor.gapNumbers = [toString gap] := rfl
  rw [replaceMarker, ha, extend, hnumbers, List.foldlM_cons, htick]
  cases Gap.flag p.flags gap with
  | error e => rfl
  | ok flags =>
    simp only [hreplace]
    rfl

section

variable {d d₁ : Document} (hd : d.WellFormed) {root : Handle} {visited : List Handle}
  {σ : Node → Node} (h : Document.Retouched Forest.withoutGaps d d₁ root visited σ)
  (hroot : ⟨root, .fragment⟩ ∈ d.forest.labels)

include hd h hroot

/-- **A visit takes the markers out of a node**, and adds their descriptors. -/
theorem visit_eq {n : Node} (hn : n ∈ d.forest.labels) (hleft : n.handle ∉ visited) {a : Address}
    (ha : d.addressOf? root n.handle = some a)
    (hleaf : ∀ s, n.content = .comment s → d.tree? n.handle = some ⟨n, .nil⟩) :
    ∃ d' σ', Document.Retouched Forest.withoutGaps d d' root (visited ++ [n.handle]) σ' ∧
      ∀ p : Draft, p.doc = d₁ → p.visit root n.handle =
        p.extend d' ((Forest.ownGaps n.content).map (·.under a)) := by
  have hσ : σ n = n := h.same n hn (.inr hleft)
  have hcontent : d₁.content? n.handle = some n.content := h.content?_left hn hσ
  have haddress : ∀ p : Draft, p.doc = d₁ → ∀ e, p.address root n.handle e = .ok a := by
    rintro p rfl e
    rw [address, h.addressOf?_left hd hroot rfl hn hσ, ha]
  -- A fragment has no markers, so a node that is changed is not the root.
  have hfragment : n.handle = root → n.content = .fragment := fun he =>
    congrArg Node.content (List.inj_on_of_nodup_map hd.nodup hn hroot he)
  cases hc : n.content with
  | text s =>
    refine ⟨d₁, σ, h.skip hd hn hleft (hc ▸ rfl), ?_⟩
    rintro p rfl
    rw [visit, hcontent, hc]
    exact p.extend_nil.symm
  | fragment =>
    refine ⟨d₁, σ, h.skip hd hn hleft (hc ▸ rfl), ?_⟩
    rintro p rfl
    rw [visit, hcontent, hc]
    exact p.extend_nil.symm
  | comment s =>
    rw [hc] at hcontent
    rw [Forest.ownGaps]
    cases hgap : Gap.ofComment? s with
    | none =>
      refine ⟨d₁, σ, h.skip hd hn hleft ?_, ?_⟩
      · rw [hc, Forest.withoutGaps, hgap]
        rfl
      · rintro p rfl
        rw [visit, hcontent]
        dsimp only
        rw [hgap]
        exact p.extend_nil.symm
    | some gap =>
      have htree : d₁.tree? n.handle = some ⟨n, .nil⟩ := by
        rw [h.tree?_left hd hn hσ, hleaf s hc, Option.map_some, Tree.map, hσ]
        rfl
      obtain ⟨d', hreplace, hwf, hforest⟩ := h.wellFormed.replaceChild_create htree (.text "")
      refine ⟨d', _, h.visit hd hn hleft hwf hforest (fun m _ hm => if_neg hm)
        (fun he => ?_) ?_, ?_⟩
      · rw [hfragment he] at hc
        cases hc
      · rw [if_pos rfl, hc, Forest.withoutGaps, hgap]
        rfl
      · rintro p rfl
        rw [visit, hcontent, List.map_singleton, Descriptor.under_root]
        dsimp only
        rw [hgap]
        exact replaceMarker_eq (haddress p rfl _) (Gap.lt_of_ofComment? hgap) hreplace
  | element e =>
    have hwf := h.wellFormed.foldl_setAttribute n.handle e.markedAttributes
    have hforest := congrArg Document.forest (d₁.foldl_setAttribute n.handle e.markedAttributes)
    rw [hc] at hcontent
    refine ⟨_, _, h.visit hd hn hleft hwf hforest (fun m _ hm => ?_) (fun he => ?_) ?_, ?_⟩
    · rw [d₁.rewritten?_of_ne n.handle e.markedAttributes hm]
      rfl
    · rw [hfragment he] at hc
      cases hc
    · rw [hc, d₁.getD_rewritten? n.handle e.markedAttributes hcontent, e.withoutGaps_eq_setAll]
    · rintro p rfl
      rw [e.map_under_ownGaps, ← foldlM_emptyAttribute, visit, hcontent]
      dsimp only
      split
      · next hnil =>
        rw [hnil]
        rfl
      · rw [haddress p rfl]
        rfl

/-- **A walk takes the markers out of all nodes that it meets.** -/
theorem foldlM_visit {rest : List (Node × Address)}
    (hrest : ∀ x ∈ rest, x.1 ∈ d.forest.labels ∧ d.addressOf? root x.1.handle = some x.2 ∧
      ∀ s, x.1.content = .comment s → d.tree? x.1.handle = some ⟨x.1, .nil⟩)
    (hnodup : (visited ++ rest.map (·.1.handle)).Nodup) :
    ∃ d' σ', Document.Retouched Forest.withoutGaps d d' root (visited ++ rest.map (·.1.handle)) σ' ∧
      ∀ p : Draft, p.doc = d₁ → (rest.map (·.1.handle)).foldlM (visit root) p = p.extend d'
        (rest.flatMap fun x => (Forest.ownGaps x.1.content).map (·.under x.2)) := by
  induction rest generalizing d₁ visited σ with
  | nil =>
    refine ⟨d₁, σ, by rwa [List.map_nil, List.append_nil], ?_⟩
    rintro p rfl
    exact p.extend_nil.symm
  | cons x rest ih =>
    obtain ⟨⟨hx, ha, hleaf⟩, hrest⟩ := List.forall_mem_cons.1 hrest
    rw [List.map_cons, List.append_cons] at hnodup ⊢
    have hleft : x.1.handle ∉ visited := fun hm =>
      (List.nodup_append.1 (List.nodup_append.1 hnodup).1).2.2 _ hm _ List.mem_cons_self rfl
    obtain ⟨d₂, σ₂, h₂, hvisit⟩ := visit_eq hd h hroot hx hleft ha hleaf
    obtain ⟨d', σ', h', hwalk⟩ := ih h₂ hrest hnodup
    refine ⟨d', σ', h', fun p hp => ?_⟩
    rw [List.foldlM_cons, hvisit p hp]
    exact extend_bind hwalk

end

end Draft

/-! ## All nodes -/

/-- The nodes of a tree in document order, each with its address. -/
def Tree.placed (t : Tree Node) : List (Node × Address) :=
  t.labels.zip (t.walk.map Address.mk)

section

variable {d : Document} {root : Handle} {t : Tree Node} (ht : d.tree? root = some t)

include ht

theorem Document.map_handle_placed : t.placed.map (·.1.handle) = d.descendants root := by
  have hlength : t.labels.length = (t.walk.map Address.mk).length := by
    simp [Tree.labels, Tree.walk, Forest.length_walk]
  have hzip := congrArg (List.map Node.handle) (List.map_fst_zip hlength.le)
  rw [List.map_map] at hzip
  rw [Document.descendants, ht]
  exact hzip

theorem Document.WellFormed.addressOf?_of_mem_placed (hd : d.WellFormed) :
    ∀ x ∈ t.placed, d.addressOf? root x.1.handle = some x.2 := by
  have hwalk := hd.map_addressOf?_descendants ht
  rw [Document.descendants, ht, Option.map_some, Option.getD_some, List.map_map] at hwalk
  exact eq_some_of_mem_zip hwalk

end

/-- The descriptors below a fragment are those of the nodes of its tree. -/
theorem Tree.flatMap_placed (root : Handle) (f : Forest Node) :
    (Tree.mk ⟨root, .fragment⟩ f).placed.flatMap
        (fun x => (Forest.ownGaps x.1.content).map (·.under x.2)) =
      f.contents.gapDescriptors 0 := by
  rw [Forest.gapDescriptors_eq_flatMap, Forest.contents, Forest.labels_map, Forest.walk_map,
    List.zip_map_left, List.flatMap_map, placed, List.zip_map_right, List.flatMap_map, labels,
    walk, List.zip_cons_cons, List.flatMap_cons]
  rfl

namespace CallSite

/-- **A walk through all nodes** leaves the skeleton, and finds all descriptors. -/
theorem exists_walk {d : Document} (hd : d.WellFormed) {root : Handle} {f : Forest Node}
    (ht : d.tree? root = some ⟨⟨root, .fragment⟩, f⟩) (hf : f.contents.Writable) :
    ∃ d' : Document, d'.shape? root = some (.ofFragment (f.contents.map Forest.withoutGaps)) ∧
      ∀ p : Draft, p.doc = d → (d.descendants root).foldlM (Draft.visit root) p =
        p.extend d' (f.contents.gapDescriptors 0) := by
  let t : Tree Node := ⟨⟨root, .fragment⟩, f⟩
  have hlabels : ∀ n ∈ t.labels, n ∈ d.forest.labels := fun n hn =>
    (Forest.labels_sublist_of_find? ht).subset hn
  have hleaf : ∀ n ∈ t.labels, ∀ s, n.content = .comment s →
      d.tree? n.handle = some ⟨n, .nil⟩ := by
    intro n hn s hs
    rcases List.mem_cons.1 hn with rfl | hn
    · cases hs
    · have hnodup := (List.nodup_cons.1 (Document.nodup_handles_of_tree? hd ht)).2
      exact Forest.find?_of_find? hd.nodup ht (Forest.find?_of_comment hnodup hf hn hs)
  have hplaced : ∀ x ∈ t.placed, x.1 ∈ d.forest.labels ∧
      d.addressOf? root x.1.handle = some x.2 ∧
      ∀ s, x.1.content = .comment s → d.tree? x.1.handle = some ⟨x.1, .nil⟩ := by
    intro x hx
    have hmem := (List.of_mem_zip hx).1
    exact ⟨hlabels x.1 hmem, hd.addressOf?_of_mem_placed ht x hx, hleaf x.1 hmem⟩
  have hhandles : t.placed.map (·.1.handle) = d.descendants root := Document.map_handle_placed ht
  have hnodup : (t.placed.map (·.1.handle)).Nodup := by
    rw [hhandles]
    exact hd.nodup_descendants root
  obtain ⟨d', σ, h, hwalk⟩ := Draft.foldlM_visit hd (hd.retouched_self Forest.withoutGaps root)
    (hlabels t.label List.mem_cons_self) hplaced hnodup
  rw [List.nil_append, hhandles] at h
  rw [hhandles, Tree.flatMap_placed] at hwalk
  refine ⟨d', h.shape?_root hd ht fun n hn => ?_, hwalk⟩
  rw [Document.descendants, ht]
  exact List.mem_map_of_mem (List.mem_cons_of_mem _ hn)

/-- **Compiling in place comes to the same as compiling.** In particular a walk meets no obstacle of
its own. -/
theorem compileInPlace_eq (site : CallSite) :
    site.compileInPlace = site.compile.mapError .compile := by
  unfold compileInPlace compile
  cases hparse : Markup.parse (String.ofList site.markup) with
  | error e => rfl
  | ok f =>
    have hd : (Document.empty.plant (.ofFragment f)).1.WellFormed :=
      Document.wellFormed_empty.plant _
    have hcontents : (f.number 1).contents = f := Forest.contents_number 1 f
    have htree : (Document.empty.plant (.ofFragment f)).1.tree? 0 =
        some ⟨⟨0, .fragment⟩, f.number 1⟩ := rfl
    have hwritable : (f.number 1).contents.Writable := by
      rw [hcontents]
      exact (Markup.printable_of_parse hparse).writable
    obtain ⟨d', hshape, hwalk⟩ := exists_walk hd htree hwritable
    rw [hcontents] at hshape hwalk
    have hroot : (Document.empty.plant (.ofFragment f)).2 = 0 := rfl
    have htick : ∀ numbers flags, List.foldlM Draft.tick flags numbers =
        (numbers.foldlM Gap.flagNumber flags).mapError fun e => .compile (.gaps e) :=
      fun numbers flags => mapError_foldlM _ _ flags numbers
    dsimp only
    rw [hroot, hwalk _ rfl, Draft.extend, htick, Gap.occupyAll_eq_finish]
    cases (List.flatMap Descriptor.gapNumbers (f.gapDescriptors 0)).foldlM Gap.flagNumber
        (List.replicate site.gapCount false) with
    | error e => rfl
    | ok flags =>
      simp only [bind, Except.bind, pure, Except.pure, Except.mapError, List.nil_append, hshape]
      cases Gap.finish flags <;> rfl

end CallSite

end MarkupTemplate
