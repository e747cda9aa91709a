import MarkupTemplate.Proofs.Attributes
import MarkupTemplate.Proofs.Template.Fill

/-!
# The last data wins

Which nodes and attributes are written, and in which order, does not depend on the data. So
filling a tree again overwrites all that was written before and leaves nothing else behind.

The law is not one of single writes, since several descriptors may write to one node and add
attributes to it. It is proved for all writes to a node at once, and a tree is filled node by node
(`label?_fill`). So is a document (`foldl_apply_eq_assign`): whether a node takes what is written
depends on its kind alone, and no write changes a kind.

Results:
* `Target.writeAll_writeAll`: writing again to a node overwrites what was written.
* `Tree.fill_fill`: filling a tree again overwrites what was filled in.
* `Document.last_update_wins`: updating a document again overwrites what was written to it.
-/

namespace MarkupTemplate

/-! ## All writes to one node -/

namespace Target

/-- The node after all of the targets have been written to it. -/
def writeAll (v : Value) (ts : List Target) (c : Content) : Content :=
  ts.foldl (fun c t => (t.write? v c).getD c) c

/-- What the targets set of an element. -/
def assignments (v : Value) (ts : List Target) : List (String × String) :=
  ts.filterMap fun t => match t with
    | textContent _ => none
    | attributeValue name _ => some (name, t.value v)

/-- What the targets leave of a text. -/
def lastText (v : Value) (ts : List Target) (s : String) : String :=
  ts.foldl (fun s t => match t with
    | textContent _ => t.value v
    | attributeValue _ _ => s) s

theorem writeAll_element (v : Value) (ts : List Target) (e : Element) :
    writeAll v ts (.element e) =
      .element { e with attributes := e.attributes.setAll (assignments v ts) } := by
  induction ts generalizing e with
  | nil => rfl
  | cons t ts ih => cases t <;> exact ih _

theorem writeAll_text (v : Value) (ts : List Target) (s : String) :
    writeAll v ts (.text s) = .text (lastText v ts s) := by
  induction ts generalizing s with
  | nil => rfl
  | cons t ts ih => cases t <;> exact ih _

theorem writeAll_comment (v : Value) (ts : List Target) (s : String) :
    writeAll v ts (.comment s) = .comment (lastText v ts s) := by
  induction ts generalizing s with
  | nil => rfl
  | cons t ts ih => cases t <;> exact ih _

theorem writeAll_fragment (v : Value) (ts : List Target) :
    writeAll v ts .fragment = .fragment := by
  induction ts with
  | nil => rfl
  | cons t ts ih => cases t <;> exact ih

theorem names_assignments (v w : Value) (ts : List Target) :
    (assignments v ts).map Prod.fst = (assignments w ts).map Prod.fst := by
  induction ts with
  | nil => rfl
  | cons t ts ih =>
    cases t with
    | textContent e => exact ih
    | attributeValue name tokens => exact congrArg (name :: ·) ih

theorem lastText_lastText (v w : Value) (ts : List Target) (s : String) :
    lastText v ts (lastText w ts s) = lastText v ts s := by
  -- either no text is written at all, or what was there before does not matter
  have hcases : (∀ (x : Value) (s : String), lastText x ts s = s) ∨
      ∀ (x : Value) (s s' : String), lastText x ts s = lastText x ts s' := by
    induction ts with
    | nil => exact .inl fun _ _ => rfl
    | cons t ts ih =>
      cases t with
      | textContent e =>
        exact .inr fun _ _ _ => rfl
      | attributeValue name tokens => exact ih
  rcases hcases with h | h
  · rw [h w]
  · exact h v _ _

/-- **Writing again to a node overwrites** what was written to it. -/
theorem writeAll_writeAll (v w : Value) (ts : List Target) (c : Content) :
    writeAll v ts (writeAll w ts c) = writeAll v ts c := by
  cases c with
  | element e =>
    rw [writeAll_element, writeAll_element, writeAll_element,
      Attributes.setAll_setAll (names_assignments v w ts)]
  | text s => rw [writeAll_text, writeAll_text, writeAll_text, lastText_lastText]
  | comment s => rw [writeAll_comment, writeAll_comment, writeAll_comment, lastText_lastText]
  | fragment => rw [writeAll_fragment]

end Target

/-! ## Trees -/

/-- The targets that are written at some places, in order. -/
def targetsAt (ss : List Descriptor) (places : List Nat) : List Target :=
  (ss.filter fun s => places = s.address.places).map Descriptor.target

/-- A tree is filled node by node. -/
theorem Tree.label?_fill (v : Value) (ss : List Descriptor) (t : Tree Content)
    (places : List Nat) :
    (t.fill v ss).label? places =
      (t.label? places).map (Target.writeAll v (targetsAt ss places)) := by
  induction ss generalizing t with
  | nil => exact Option.map_id'.symm
  | cons s ss ih =>
    unfold fill
    rw [List.foldl_cons, ← fill, ih, Descriptor.writeTo, label?_relabelAt]
    by_cases h : places = s.address.places
    · rw [if_pos h, Option.map_map, targetsAt, targetsAt, List.filter_cons, if_pos (by simp [h])]
      rfl
    · rw [if_neg h, targetsAt, targetsAt, List.filter_cons, if_neg (by simp [h])]

/-- **Filling a tree again overwrites** what was filled in. -/
theorem Tree.fill_fill (v w : Value) (ss : List Descriptor) (t : Tree Content) :
    (t.fill w ss).fill v ss = t.fill v ss := by
  refine ext_label? ?_
  intro places
  rw [label?_fill, label?_fill, label?_fill, Option.map_map]
  cases t.label? places with
  | none => rfl
  | some c => exact congrArg some (Target.writeAll_writeAll v w _ c)

/-! ## What a node takes -/

namespace Target

/-- Whether a node takes what one of the targets writes to it. -/
def taken (ts : List Target) (c : Content) : Bool :=
  ts.any fun t => (t.write? .null c).isSome

/-- The node after all of the targets have been written to it, if it takes any of them. -/
def rewrite? (v : Value) (ts : List Target) (c : Content) : Option Content :=
  if taken ts c then some (writeAll v ts c) else none

/-- A node that takes nothing stays as it is. -/
theorem getD_rewrite? (v : Value) (ts : List Target) (c : Content) :
    (rewrite? v ts c).getD c = writeAll v ts c := by
  unfold rewrite?
  split
  · rfl
  · next h =>
    have hrefused : ∀ t ∈ ts, t.write? v c = none := by
      intro t ht
      rw [← Option.not_isSome_iff_eq_none, write?_isSome v .null]
      exact fun hc => h (List.any_eq_true.2 ⟨t, ht, hc⟩)
    clear h
    induction ts with
    | nil => rfl
    | cons t ts ih =>
      rw [writeAll, List.foldl_cons, hrefused t List.mem_cons_self]
      exact ih fun u hu => hrefused u (List.mem_cons_of_mem t hu)

/-- **No write changes the kind of a node**, so it takes the same again. -/
theorem taken_writeAll (v : Value) (ts us : List Target) (c : Content) :
    taken us (writeAll v ts c) = taken us c := by
  refine congrArg us.any (funext fun t => ?_)
  cases c with
  | element e => rw [writeAll_element]; cases t <;> rfl
  | text s => rw [writeAll_text]; cases t <;> rfl
  | comment s => rw [writeAll_comment]; cases t <;> rfl
  | fragment => rw [writeAll_fragment]

/-- What a node takes of the first target it keeps, unless it takes one of the others. -/
theorem rewrite?_cons (v : Value) (t : Target) (ts : List Target) (c : Content) :
    rewrite? v (t :: ts) c = (rewrite? v ts ((t.write? v c).getD c)).or (t.write? v c) := by
  have htaken : taken (t :: ts) c = ((t.write? v c).isSome || taken ts c) := by
    rw [taken, List.any_cons, write?_isSome .null v]
    rfl
  have hwritten : writeAll v (t :: ts) c = writeAll v ts ((t.write? v c).getD c) := rfl
  rw [rewrite?, htaken, hwritten]
  cases t.write? v c with
  | none =>
    rw [Option.or_none]
    rfl
  | some c' =>
    rw [Option.or_some, Option.getD_some, getD_rewrite?]
    rfl

/-- **Writing again to a node overwrites** what it took before. -/
theorem rewrite?_writeAll (v w : Value) (ts : List Target) (c : Content) :
    (rewrite? w ts (writeAll v ts c)).or (rewrite? v ts c) = rewrite? w ts c := by
  unfold rewrite?
  rw [taken_writeAll, writeAll_writeAll]
  split <;> rfl

end Target

/-! ## Documents -/

namespace Forest

/-- The forest with what `k` has for a handle in every node of that handle. -/
def assign (k : Handle → Option Content) (f : Forest Node) : Forest Node :=
  f.map fun n => { n with content := (k n.handle).getD n.content }

theorem assign_cons (k : Handle → Option Content) (a : Node) (below beside : Forest Node) :
    (cons a below beside).assign k =
      cons { a with content := (k a.handle).getD a.content } (below.assign k)
        (beside.assign k) := rfl

theorem assign_none (f : Forest Node) : (f.assign fun _ => none) = f := by
  induction f with
  | nil => rfl
  | cons a below beside ih₁ ih₂ => rw [assign_cons, ih₁, ih₂, Option.getD_none]

theorem assign_assign (k l : Handle → Option Content) (f : Forest Node) :
    (f.assign k).assign l = f.assign fun h => (l h).or (k h) := by
  induction f with
  | nil => rfl
  | cons a below beside ih₁ ih₂ =>
    rw [assign_cons, assign_cons, assign_cons, ih₁, ih₂, Option.getD_or]

theorem relabel_eq_assign (h : Handle) (c : Content) (f : Forest Node) :
    (f.relabel h fun _ => c) = f.assign fun x => if x = h then some c else none := by
  induction f with
  | nil => rfl
  | cons a below beside ih₁ ih₂ =>
    rw [relabel, ih₁, ih₂, assign_cons]
    split <;> rfl

theorem content_of_find?_assign (k : Handle → Option Content) (h : Handle) (f : Forest Node) :
    ((f.assign k).find? h).map (·.label.content) =
      (f.find? h).map fun t => (k h).getD t.label.content := by
  induction f with
  | nil => rfl
  | cons a below beside ih₁ ih₂ =>
    by_cases ha : a.handle = h
    · rw [assign_cons, find?, find?, if_pos ha, if_pos ha, Option.map_some, Option.map_some, ha]
    · rw [assign_cons, find?, find?, if_neg ha, if_neg ha, Option.map_or, Option.map_or, ih₁, ih₂]

end Forest

/-- What the bindings write to a node, in order. -/
def targetsOf (bs : List Binding) (h : Handle) : List Target :=
  (bs.filter fun b => h = b.node).map Binding.target

namespace Document

/-- The document with what `k` has for a handle in every node of that handle. -/
def assign (d : Document) (k : Handle → Option Content) : Document :=
  { d with forest := d.forest.assign k }

theorem assign_assign (d : Document) (k l : Handle → Option Content) :
    (d.assign k).assign l = d.assign fun h => (l h).or (k h) :=
  congrArg (Document.mk · d.next) (Forest.assign_assign k l d.forest)

theorem content?_assign (d : Document) (k : Handle → Option Content) (h : Handle) :
    (d.assign k).content? h = (d.content? h).map fun c => (k h).getD c := by
  refine (Forest.content_of_find?_assign k h d.forest).trans ?_
  rw [content?, Option.map_map]
  rfl

theorem apply_eq_assign (d : Document) (v : Value) (b : Binding) :
    Binding.apply d v b = d.assign fun h =>
      if h = b.node then (d.content? h).bind (b.target.write? v) else none := by
  unfold Binding.apply writeNode assign
  split
  · next c hc =>
    rw [Forest.relabel_eq_assign]
    refine congrArg (fun k => Document.mk (d.forest.assign k) d.next) (funext fun h => ?_)
    split
    · next e => rw [e, hc]
    · rfl
  · next hc =>
    have hnone : (fun h => if h = b.node then (d.content? h).bind (b.target.write? v) else none) =
        fun _ => none := by
      funext h
      split
      · next e => rw [e, hc]
      · rfl
    rw [hnone, Forest.assign_none]

/-- What the data `v` makes of the nodes that the bindings write to. -/
def rewritten? (d : Document) (v : Value) (bs : List Binding) (h : Handle) : Option Content :=
  (d.content? h).bind (Target.rewrite? v (targetsOf bs h))

/-- **A document is updated node by node.** -/
theorem foldl_apply_eq_assign (d : Document) (v : Value) (bs : List Binding) :
    bs.foldl (Binding.apply · v ·) d = d.assign (d.rewritten? v bs) := by
  induction bs generalizing d with
  | nil =>
    have hnone : d.rewritten? v [] = fun _ => none := by
      funext h
      unfold rewritten?
      cases d.content? h <;> rfl
    rw [hnone, assign, Forest.assign_none]
    rfl
  | cons b bs ih =>
    rw [List.foldl_cons, ih, apply_eq_assign, assign_assign]
    refine congrArg d.assign (funext fun h => ?_)
    unfold rewritten?
    rw [content?_assign]
    cases d.content? h with
    | none => simp
    | some c =>
      by_cases hb : h = b.node
      · have htargets : targetsOf (b :: bs) h = b.target :: targetsOf bs h := by
          rw [targetsOf, List.filter_cons, if_pos (by simpa using hb)]
          rfl
        rw [if_pos hb, htargets]
        exact (Target.rewrite?_cons v b.target (targetsOf bs h) c).symm
      · have htargets : targetsOf (b :: bs) h = targetsOf bs h := by
          rw [targetsOf, List.filter_cons, if_neg (by simpa using hb)]
          rfl
        rw [if_neg hb, htargets, Option.or_none]
        rfl

/-- **The last update wins.** Whatever an updater is bound to, and however often, data written after
other data leaves the document as if nothing had been written before; so does the same data written
again. -/
theorem last_update_wins (d : Document) (u : Updater) (v w : Value) :
    (d.update u v).update u w = d.update u w ∧ (d.update u w).update u w = d.update u w := by
  have hlast : ∀ v, (d.update u v).update u w = d.update u w := by
    intro v
    unfold update
    rw [foldl_apply_eq_assign, foldl_apply_eq_assign, foldl_apply_eq_assign, assign_assign]
    refine congrArg d.assign (funext fun h => ?_)
    rw [rewritten?, rewritten?, rewritten?, content?_assign, rewritten?]
    cases d.content? h with
    | none => rfl
    | some c =>
      rw [Option.map_some, Option.bind_some, Option.bind_some, Option.bind_some,
        Target.getD_rewrite?]
      exact Target.rewrite?_writeAll v w (targetsOf u.bindings h) c
  exact ⟨hlast v, hlast w⟩

end Document

end MarkupTemplate
