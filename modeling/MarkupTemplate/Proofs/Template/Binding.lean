import MarkupTemplate.Proofs.Document.Lifetime
import MarkupTemplate.Proofs.Template.Overwrite

/-!
# What a binding is fixed to

A descriptor is bound to the node at its address once and for all. It does not matter where the node
is taken afterwards, nor what stands at the address then: an update writes to this node, as long as
it is there, and to nothing else.

Results:
* `Target.exists_write?`, `Target.write?_eq_none`: what a node takes, and which nodes take nothing.
* `Document.apply_of_taken`, `Document.apply_of_refused`: an update changes its node or nothing.
* `Document.bindings_stay_with_nodes`: a binding stays with its node whatever is done.
-/

namespace MarkupTemplate

/-! ## What is written to a node -/

namespace Target

/-- A text is written to texts and comments, an attribute to elements. -/
inductive Takes : Target → Content → Prop
  /-- A text takes another text. -/
  | text (expression s : String) : Takes (textContent expression) (.text s)
  /-- So does a comment. -/
  | comment (expression s : String) : Takes (textContent expression) (.comment s)
  /-- An element takes an attribute. -/
  | element (name : String) (tokens : List Token) (e : Element) :
    Takes (attributeValue name tokens) (.element e)

/-- What the data `v` makes of a node. -/
inductive Writes (v : Value) : Target → Content → Content → Prop
  /-- The text becomes that of the data at the path, and empty where there is none. -/
  | text (path s : String) :
    Writes v (textContent path) (.text s) (.text (((v.at? path).map Value.text).getD ""))
  /-- So does that of a comment. -/
  | comment (path s : String) :
    Writes v (textContent path) (.comment s) (.comment (((v.at? path).map Value.text).getD ""))
  /-- The attribute has the filled tokens. It stays in its place or comes last, and the other ones
  stay as they are. -/
  | element {name : String} {tokens : List Token} {e : Element} {as : Attributes}
    (value : as.get? name = some (fillTokens v tokens))
    (others : ∀ other, other ≠ name → as.get? other = e.attributes.get? other)
    (names : as.names =
      if name ∈ e.attributes.names then e.attributes.names else e.attributes.names ++ [name]) :
    Writes v (attributeValue name tokens) (.element e) (.element { e with attributes := as })

/-- **A node takes what is written** if it is of the right kind. -/
theorem exists_write? {t : Target} {c : Content} (h : t.Takes c) (v : Value) :
    ∃ c', t.write? v c = some c' ∧ t.Writes v c c' := by
  cases h with
  | text path s => exact ⟨_, rfl, .text path s⟩
  | comment path s => exact ⟨_, rfl, .comment path s⟩
  | element name tokens e =>
    refine ⟨_, rfl, .element (Attributes.get?_set_self _ _ _)
      (fun other hne => Attributes.get?_set_ne _ hne _) ?_⟩
    split
    · next hmem => exact Attributes.names_set_of_mem hmem _
    · next hmem => exact Attributes.names_set_of_not_mem hmem _

/-- **A node of another kind** refuses it. -/
theorem write?_eq_none {t : Target} {c : Content} (h : ¬t.Takes c) (v : Value) :
    t.write? v c = none := by
  cases t with
  | textContent path =>
    cases c with
    | text s => exact absurd (.text path s) h
    | comment s => exact absurd (.comment path s) h
    | element e => rfl
    | fragment => rfl
  | attributeValue name tokens =>
    cases c with
    | element e => exact absurd (.element name tokens e) h
    | text s => rfl
    | comment s => rfl
    | fragment => rfl

end Target

namespace Document

/-! ## Applying one binding -/

theorem bind_eq_ok_iff {d : Document} {root : Handle} {s : Descriptor} {b : Binding} :
    d.bind root s = .ok b ↔ d.nodeAt root s.address = .ok b.node ∧ b.target = s.target := by
  obtain ⟨node, target⟩ := b
  rw [bind]
  cases d.nodeAt root s.address with
  | error e =>
    refine iff_of_false (fun h => ?_) fun h => ?_
    · cases h
    · cases h.1
  | ok h =>
    simp only [Except.map, Except.ok.injEq, Binding.mk.injEq]
    exact and_congr_right fun _ => eq_comm

/-- Other nodes stay as they are. -/
theorem content?_apply_of_ne (d : Document) (v : Value) (b : Binding) {h : Handle}
    (hne : h ≠ b.node) : (Binding.apply d v b).content? h = d.content? h := by
  rw [apply_eq_assign, content?_assign, if_neg hne]
  exact Option.map_id'

/-- **A node that takes what is written** gets it. -/
theorem apply_of_taken {d : Document} {b : Binding} {c : Content} (hc : d.content? b.node = some c)
    (htakes : b.target.Takes c) (v : Value) :
    ∃ c', (Binding.apply d v b).content? b.node = some c' ∧ b.target.Writes v c c' := by
  obtain ⟨c', hwrite, hwrites⟩ := Target.exists_write? htakes v
  refine ⟨c', ?_, hwrites⟩
  rw [apply_eq_assign, content?_assign, if_pos rfl, hc, Option.bind_some, hwrite, Option.map_some,
    Option.getD_some]

/-- **Nothing is written** if the node is gone or of another kind. -/
theorem apply_of_refused {d : Document} {b : Binding}
    (hrefused : ∀ c, d.content? b.node = some c → ¬b.target.Takes c) (v : Value) :
    Binding.apply d v b = d := by
  have hnone : (d.content? b.node).bind (b.target.write? v) = none := by
    rw [Option.bind_eq_none_iff]
    exact fun c hc => Target.write?_eq_none (hrefused c hc) v
  rw [Binding.apply, writeNode, hnone]

/-! ## Bindings and nodes -/

/-- **A binding stays with its node.** Whatever is done to a document after a descriptor was bound
to the node at its address, this node is what it was, apart from what is written to it, or is gone
for ever. An update with any data moves no node and changes no other one. The node takes what is
written if it is there and of the right kind; otherwise the update changes nothing. -/
theorem bindings_stay_with_nodes {d : Document} (hd : d.Reachable) {root : Handle} {s : Descriptor}
    {b : Binding} (hb : d.bind root s = .ok b) (ops : List Operation) (v : Value) :
    let now := d.run ops
    let after := now.update (.bound b) v
    d.nodeAt root s.address = .ok b.node ∧
      (∀ c, now.content? b.node = some c →
        ∃ c₀, d.content? b.node = some c₀ ∧ c.kind = c₀.kind) ∧
      (now.contains b.node = false → ∀ more, (now.run more).contains b.node = false) ∧
      now.SamePlaces after ∧
      (∀ h, h ≠ b.node → after.content? h = now.content? h) ∧
      (∀ c, now.content? b.node = some c → s.target.Takes c →
        ∃ c', after.content? b.node = some c' ∧ s.target.Writes v c c') ∧
      ((∀ c, now.content? b.node = some c → ¬s.target.Takes c) → after = now) := by
  intro now after
  obtain ⟨hnode, htarget⟩ := bind_eq_ok_iff.1 hb
  have hnow : now.Reachable := hd.run ops
  have hlater : d.Later now := (d.edits_run ops).later
  have hgiven : b.node < d.next := by
    obtain ⟨t, s, ht, hs, hnode⟩ := nodeAt_eq_ok_iff.1 hnode
    have hfind := Forest.find?_of_at? hd.wellFormed.nodup ht hs
    rw [← hnode]
    exact hd.wellFormed.fresh _ (Forest.mem_handles_of_find? hfind)
  rw [← htarget]
  refine ⟨hnode, fun c hc => hd.wellFormed.kind_of_later hlater hgiven hc, fun hgone more => ?_,
    hnow.wellFormed.samePlaces_update _ v, fun h hne => content?_apply_of_ne now v b hne,
    fun c hc htakes => apply_of_taken hc htakes v, fun hrefused => apply_of_refused hrefused v⟩
  exact hnow.wellFormed.gone_of_later (now.edits_run more).later
    (Nat.lt_of_lt_of_le hgiven hlater.next) hgone

/-- A text is bound, moved to another item and written to there, not to what took its place. Then it
is removed, and the document stays as it is. -/
theorem bindings_stay_with_nodes_moved :
    let d := empty.run [.createElement none "ul", .createElement none "li", .createText "x",
      .createElement none "li", .createText "y", .append 0 1, .append 1 2, .append 0 3]
    let s : Descriptor := ⟨⟨[0, 0]⟩, .textContent ""⟩
    let moves : List Operation := [.append 3 2, .append 1 4]
    let gone := d.run (moves ++ [.remove 2])
    d.Reachable ∧ d.bind 0 s = .ok ⟨2, s.target⟩ ∧
      (d.run moves).nodeAt 0 ⟨[0, 0]⟩ = .ok 4 ∧ (d.run moves).nodeAt 0 ⟨[1, 0]⟩ = .ok 2 ∧
      ((d.run moves).update (.bound ⟨2, s.target⟩) (.string "z")).content? 2 = some (.text "z") ∧
      ((d.run moves).update (.bound ⟨2, s.target⟩) (.string "z")).content? 4 = some (.text "y") ∧
      gone.update (.bound ⟨2, s.target⟩) (.string "z") = gone := by
  intro d s moves gone
  have hd : d.Reachable := reachable_run _
  have hb : d.bind 0 s = .ok ⟨2, s.target⟩ := by decide +kernel
  have hgone : gone.content? 2 = none := by decide +kernel
  obtain ⟨-, -, -, -, hothers, htaken, -⟩ :=
    bindings_stay_with_nodes hd hb moves (.string "z")
  obtain ⟨-, -, -, -, -, -, hrefused⟩ :=
    bindings_stay_with_nodes hd hb (moves ++ [.remove 2]) (.string "z")
  obtain ⟨c', hc', hwrites⟩ := htaken (.text "x") (by decide +kernel) (.text "" "x")
  refine ⟨hd, hb, by decide +kernel, by decide +kernel, ?_, ?_, hrefused fun c hc => ?_⟩
  · cases hwrites
    exact hc'
  · rw [hothers 4 (by decide)]
    decide +kernel
  · rw [hgone] at hc
    cases hc

end Document

end MarkupTemplate
