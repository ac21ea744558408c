import GreedyMatch.Proofs.Text.Read
import GreedyMatch.Proofs.Value.Buildable
import GreedyMatch.Proofs.Value.Classes
import GreedyMatch.Value.Render
import Mathlib

/-!
# Written forms identify values

How the written form of a value begins tells the class of the value, and what closes the form or
separates it from the next one cannot continue it. So the form of each part ends where it must,
and values that are written alike are one value, part by part. Of a class only the name is written,
so this is so as long as the classes that no analysis knows have names that can be told from what
stands around them, and from each other.
-/
namespace GreedyMatch

namespace Text

/-- Whatever can stand right before or behind a name or a number. -/
def delimits (c : Char) : Bool := ['(', ')', '[', ']', ',', apostrophe, doubleQuote].contains c

/-- What tells a name from what stands around it. -/
@[mk_iff]
structure IsName (t : Text) : Prop where
  ne_nil : t ≠ []
  bare : ∀ c ∈ t, delimits c = false

/-- The names that are written for what is no component of an unknown class. -/
def fixedNames : List String := "None" :: "True" :: "False" :: analysedNames

theorem isName_of_mem_fixedNames : ∀ name ∈ fixedNames, IsName name.toList := by
  simp [fixedNames, analysedNames, isName_iff, delimits, apostrophe, doubleQuote]

/-- The delimiter that opens something, where either quote counts as the same. -/
def opening? (c : Char) : Option Char :=
  if c = '(' ∨ c = '[' then some c
  else if c = apostrophe ∨ c = doubleQuote then some apostrophe
  else none

/-- The characters before the first delimiter, and what that one opens. -/
def lead (t : Text) : Text × Option Char :=
  (t.takeWhile (!delimits ·), (t.dropWhile (!delimits ·)).head?.bind opening?)

theorem lead_bare_append {name t : Text} (hname : ∀ c ∈ name, delimits c = false)
    (ht : ∀ c ∈ t.head?, delimits c = true) : lead (name ++ t) = (name, t.head?.bind opening?) := by
  have hname' : ∀ c ∈ name, (!delimits c) = true := fun c hc => by rw [hname c hc, Bool.not_false]
  have htake : t.takeWhile (!delimits ·) = [] ∧ t.dropWhile (!delimits ·) = t := by
    cases t with
    | nil => exact ⟨rfl, rfl⟩
    | cons c t => simp [ht c rfl]
  rw [lead, List.takeWhile_append_of_pos hname', List.dropWhile_append_of_pos hname', htake.1,
    htake.2, List.append_nil]

theorem lead_delimiter {c : Char} (hc : delimits c = true) (t : Text) :
    lead (c :: t) = ([], opening? c) :=
  lead_bare_append (List.forall_mem_nil _) (by rintro d ⟨⟩; exact hc)

theorem isDigit_or_eq_of_mem_ofInt {n : Int} {c : Char} (h : c ∈ ofInt n) :
    c.isDigit = true ∨ c = '-' := by
  cases n with
  | ofNat n => exact .inl (isDigit_of_mem_ofNat h)
  | negSucc n =>
    rcases List.mem_cons.1 h with rfl | h
    · exact .inr rfl
    · exact .inl (isDigit_of_mem_ofNat h)

theorem delimits_of_mem_ofInt {n : Int} {c : Char} (h : c ∈ ofInt n) : delimits c = false := by
  rw [Bool.eq_false_iff]
  intro hc
  rcases isDigit_or_eq_of_mem_ofInt h with h | rfl
  · simp [delimits] at hc
    rcases hc with rfl | rfl | rfl | rfl | rfl | rfl | rfl <;> cases h
  · cases hc

theorem ofInt_ne_nil (n : Int) : ofInt n ≠ [] := by
  cases n with
  | ofNat n => exact Nat.toDigits_ne_nil
  | negSucc n => exact List.cons_ne_nil _ _

theorem ofInt_ne {t : Text} (ht : ∃ c ∈ t, ¬(c.isDigit = true ∨ c = '-')) (n : Int) :
    ofInt n ≠ t := by
  rintro rfl
  obtain ⟨c, hc, hnot⟩ := ht
  exact hnot (isDigit_or_eq_of_mem_ofInt hc)

theorem ofInt_injective : Function.Injective ofInt := by
  intro m n h
  have hread (n : Int) : readInt? (ofInt n) = some (n, []) := by
    rw [← List.append_nil (ofInt n)]
    exact readInt?_ofInt n (by rintro c ⟨⟩)
  have hpair := hread m
  rw [h, hread n] at hpair
  cases hpair
  rfl

/-- What may follow a written form: nothing, or a character that separates or closes. -/
def Closes (t : Text) : Prop := ∀ c ∈ t.head?, c = ',' ∨ c = ')' ∨ c = ']'

/-- What may follow the last one of several written forms. -/
structure Ends (t : Text) : Prop where
  closes : t.Closes
  ne_nil : t ≠ []
  not_next : ∀ u, t ≠ ',' :: ' ' :: u

theorem Closes.delimits {t : Text} (ht : t.Closes) : ∀ c ∈ t.head?, delimits c = true := by
  intro c hc
  rcases ht c hc with rfl | rfl | rfl <;> decide

theorem Closes.opening?_eq_none {t : Text} (ht : t.Closes) : t.head?.bind opening? = none := by
  rw [Option.bind_eq_none_iff]
  intro c hc
  rcases ht c hc with rfl | rfl | rfl <;> rfl

theorem closes_cons {c : Char} (hc : c = ',' ∨ c = ')' ∨ c = ']') (t : Text) : Closes (c :: t) := by
  rintro d ⟨⟩
  exact hc

theorem ends_paren (t : Text) : Ends (')' :: t) :=
  ⟨closes_cons (by decide) t, List.cons_ne_nil _ _, by rintro u ⟨⟩⟩

theorem ends_bracket (t : Text) : Ends (']' :: t) :=
  ⟨closes_cons (by decide) t, List.cons_ne_nil _ _, by rintro u ⟨⟩⟩

theorem ends_comma_paren (t : Text) : Ends (',' :: ')' :: t) :=
  ⟨closes_cons (by decide) _, List.cons_ne_nil _ _, by rintro u ⟨⟩⟩

/-- The items after a first one, each with a comma and a space in front of it. -/
def continued (items : List Text) : Text := items.flatMap fun item => ',' :: ' ' :: item

theorem commaSeparated_cons (item : Text) (items : List Text) :
    commaSeparated (item :: items) = item ++ continued items := by
  induction items generalizing item with
  | nil => exact (List.append_nil item).symm
  | cons next items ih =>
    rw [commaSeparated, ih next, continued, continued, List.flatMap_cons]
    · rfl
    · rintro ⟨⟩

theorem continued_cons_append (item : Text) (items : List Text) (t : Text) :
    continued (item :: items) ++ t = ',' :: ' ' :: (item ++ (continued items ++ t)) := by
  rw [continued, List.flatMap_cons, List.append_assoc]
  rfl

theorem Closes.continued {t : Text} (ht : t.Closes) (items : List Text) :
    Closes (continued items ++ t) := by
  cases items with
  | nil => exact ht
  | cons item items =>
    rw [continued_cons_append]
    exact closes_cons (.inl rfl) _

/-- What closes a tuple, whose only item has a comma after it. -/
def tupleEnd (items : List Text) : Text := if items.length = 1 then ",)".toList else [')']

theorem tupled_eq (items : List Text) :
    tupled items = '(' :: commaSeparated items ++ tupleEnd items := by
  fun_cases tupled items with
  | case1 item => rfl
  | case2 items hne =>
    rw [tupleEnd, if_neg]
    intro hlength
    obtain ⟨item, rfl⟩ := List.length_eq_one_iff.1 hlength
    exact hne item rfl

theorem ends_tupleEnd_append (items : List Text) (t : Text) : Ends (tupleEnd items ++ t) := by
  unfold tupleEnd
  split_ifs
  · exact ends_comma_paren t
  · exact ends_paren t

end Text

theorem Component.render_eq (c : Component) :
    c.render = Text.applied c.cls.name (c.payload.map Value.render) := by
  cases c with
  | unknown cls payload =>
    rw [render, Value.renderAll_eq_map]
    rfl
  | _ =>
    rw [render]
    rfl

theorem Grammar.render_eq (g : Grammar) :
    (Value.grammar g).render =
      Text.applied "Grammar" [Text.bracketed ((g.map Value.component).map Value.render)] := by
  rw [Value.render, Text.grammarForm, Component.renderAll_eq_map, List.map_map]
  rfl

theorem UnknownClass.name_ne_of_mem (cls : UnknownClass) {name : String}
    (h : name ∈ analysedNames) : cls.name ≠ name := by
  rintro rfl
  exact cls.unanalysed h

namespace ComponentClass

theorem name_ne_grammar (cls : ComponentClass) : cls.name ≠ "Grammar" := by
  cases cls with
  | unknown cls => exact cls.name_ne_of_mem (by decide)
  | _ => decide

/-- A class that analyses know has its name for itself. -/
theorem eq_of_name_eq {a b : ComponentClass} (h : a.name = b.name)
    (hunknown : ∀ cls cls', a = .unknown cls → b = .unknown cls' → cls.name = cls'.name →
      cls = cls') : a = b := by
  cases a with
  | unknown cls =>
    cases b with
    | unknown cls' => exact congrArg unknown (hunknown cls cls' rfl rfl h)
    | _ => exact absurd h (cls.name_ne_of_mem (by decide))
  | _ =>
    cases b with
    | unknown cls => exact absurd h.symm (cls.name_ne_of_mem (by decide))
    | _ => first | rfl | exact absurd h (by decide)

end ComponentClass

namespace Value
variable {K : Set UnknownClass} {v w : Value} {vs ws : List Value} {s t : Text}

/-- The classes that no analysis knows are of the given ones, all through the value. -/
def Over (K : Set UnknownClass) (v : Value) : Prop :=
  ∀ cls payload, v.Holds (.component (.unknown cls payload)) → cls ∈ K

theorem over_iff : v.Over K ↔
    (∀ cls payload, v = .component (.unknown cls payload) → cls ∈ K) ∧ ∀ u ∈ v.parts, u.Over K := by
  have hover (u : Value) : u.Over K ↔
      ∀ w, u.Holds w → ∀ cls payload, w = .component (.unknown cls payload) → cls ∈ K := by
    constructor
    · rintro h _ hw cls payload rfl
      exact h cls payload hw
    · intro h cls payload hpayload
      exact h _ hpayload cls payload rfl
  rw [hover, forall_holds_iff]
  exact and_congr_right fun _ => forall₂_congr fun u _ => (hover u).symm

theorem Over.mem_of_cls {c : Component} {cls : UnknownClass} (h : (component c).Over K)
    (hc : c.cls = .unknown cls) : cls ∈ K := by
  cases c <;> cases hc
  exact h cls _ (.refl _)

theorem over_unknown {cls : UnknownClass} (h : cls ∈ K) :
    (component (.unknown cls [])).Over K :=
  over_iff.2 ⟨by rintro _ _ ⟨⟩; exact h, List.forall_mem_nil _⟩

def lead : Value → Text × Option Char
  | .nothing => ("None".toList, none)
  | .bool true => ("True".toList, none)
  | .bool false => ("False".toList, none)
  | .int n => (Text.ofInt n, none)
  | .text _ => ([], some Text.apostrophe)
  | .list _ => ([], some '[')
  | .tuple _ => ([], some '(')
  | .component c => (c.cls.name.toList, some '(')
  | .grammar _ => ("Grammar".toList, some '(')

theorem lead_ne (v : Value) : v.lead ≠ ([], none) := by
  intro h
  obtain ⟨hname, hopen⟩ := Prod.ext_iff.1 h
  cases v with
  | nothing => exact absurd hname (show "None".toList ≠ [] by simp)
  | bool b =>
    cases b with
    | true => exact absurd hname (show "True".toList ≠ [] by simp)
    | false => exact absurd hname (show "False".toList ≠ [] by simp)
  | int n => exact absurd hname (Text.ofInt_ne_nil n)
  | _ => exact nomatch hopen

theorem lead_applied {name : String} (hname : ∀ c ∈ name.toList, Text.delimits c = false)
    (items : List Text) (t : Text) :
    (Text.applied name items ++ t).lead = (name.toList, some '(') := by
  rw [Text.applied, List.append_assoc, List.append_assoc]
  exact Text.lead_bare_append hname (by rintro c ⟨⟩; decide)

/-- The names of the classes in a set can be told from what stands around them. -/
def Named (K : Set UnknownClass) : Prop := ∀ cls ∈ K, Text.IsName cls.name.toList

theorem Named.isName {c : Component} (hK : Named K) (hc : (component c).Over K) :
    Text.IsName c.cls.name.toList := by
  cases hcls : c.cls with
  | unknown cls => exact hK cls (hc.mem_of_cls hcls)
  | _ => exact Text.isName_of_mem_fixedNames _ (by decide)

theorem lead_render (hK : Named K) (hv : v.Over K) (ht : t.Closes) :
    (v.render ++ t).lead = v.lead := by
  have hbare (name : Text) (hname : ∀ c ∈ name, Text.delimits c = false) :
      (name ++ t).lead = (name, none) := by
    rw [Text.lead_bare_append hname ht.delimits, ht.opening?_eq_none]
  have hfixed (name : String) (hname : name ∈ Text.fixedNames) :
      Text.lead (name.toList ++ t) = (name.toList, none) :=
    hbare _ (Text.isName_of_mem_fixedNames name hname).bare
  cases v with
  | nothing => exact hfixed "None" (by decide)
  | bool b =>
    cases b with
    | true => exact hfixed "True" (by decide)
    | false => exact hfixed "False" (by decide)
  | int n => exact hbare _ fun c => Text.delimits_of_mem_ofInt
  | text u =>
    rcases Text.isQuote_delimiter u with h | h <;>
    · rw [render, Text.quoted, h]
      exact Text.lead_delimiter (by decide) _
  | list items => exact Text.lead_delimiter (by decide) _
  | tuple items =>
    rw [render, Text.tupled_eq]
    exact Text.lead_delimiter (by decide) _
  | component c =>
    rw [render, c.render_eq]
    exact lead_applied (hK.isName hv).bare _ t
  | grammar g =>
    exact lead_applied (Text.isName_of_mem_fixedNames "Grammar" (by decide)).bare _ t

/-- No value is written in a form that begins with what closes one. -/
theorem render_append_ne (hK : Named K) (hv : v.Over K) (hs : s.Closes) (ht : t.Ends) :
    v.render ++ s ≠ t := by
  intro h
  have hlead := lead_render hK hv hs
  obtain ⟨c, t, rfl⟩ := List.exists_cons_of_ne_nil ht.ne_nil
  rw [h, Text.lead_delimiter (ht.closes.delimits c rfl),
    show Text.opening? c = none from ht.closes.opening?_eq_none] at hlead
  exact v.lead_ne hlead.symm

/-- Where the written form of the value ends is told by what is written, whatever follows. -/
def Legible (K : Set UnknownClass) (v : Value) : Prop :=
  ∀ (w : Value) (s t : Text), w.Over K → s.Closes → t.Closes → v.render ++ s = w.render ++ t →
    v = w ∧ s = t

theorem continued_append_inj (hvs : ∀ v ∈ vs, v.Legible K) (hws : ∀ w ∈ ws, w.Over K)
    (hs : s.Ends) (ht : t.Ends)
    (h : Text.continued (vs.map render) ++ s = Text.continued (ws.map render) ++ t) :
    vs = ws ∧ s = t := by
  induction vs generalizing ws with
  | nil =>
    cases ws with
    | nil => exact ⟨rfl, h⟩
    | cons w ws =>
      rw [List.map_cons, Text.continued_cons_append] at h
      exact absurd h (hs.not_next _)
  | cons v vs ih =>
    obtain ⟨hv, hvs⟩ := List.forall_mem_cons.1 hvs
    cases ws with
    | nil =>
      rw [List.map_cons, Text.continued_cons_append] at h
      exact absurd h.symm (ht.not_next _)
    | cons w ws =>
      obtain ⟨hw, hws'⟩ := List.forall_mem_cons.1 hws
      rw [List.map_cons, List.map_cons, Text.continued_cons_append, Text.continued_cons_append,
        List.cons.injEq, List.cons.injEq] at h
      obtain ⟨rfl, hrest⟩ := hv w _ _ hw (hs.closes.continued _) (ht.closes.continued _) h.2.2
      obtain ⟨rfl, rfl⟩ := ih hvs hws' hrest
      exact ⟨rfl, rfl⟩

theorem commaSeparated_append_inj (hK : Named K) (hvs : ∀ v ∈ vs, v.Over K ∧ v.Legible K)
    (hws : ∀ w ∈ ws, w.Over K) (hs : s.Ends) (ht : t.Ends)
    (h : Text.commaSeparated (vs.map render) ++ s = Text.commaSeparated (ws.map render) ++ t) :
    vs = ws ∧ s = t := by
  have hcons (v : Value) (vs : List Value) (t : Text) :
      Text.commaSeparated ((v :: vs).map render) ++ t =
        v.render ++ (Text.continued (vs.map render) ++ t) := by
    rw [List.map_cons, Text.commaSeparated_cons, List.append_assoc]
  cases vs with
  | nil =>
    cases ws with
    | nil => exact ⟨rfl, h⟩
    | cons w ws =>
      rw [hcons] at h
      exact absurd h.symm
        (render_append_ne hK (hws w List.mem_cons_self) (ht.closes.continued _) hs)
  | cons v vs =>
    obtain ⟨⟨hover, hv⟩, hvs⟩ := List.forall_mem_cons.1 hvs
    cases ws with
    | nil =>
      rw [hcons] at h
      exact absurd h (render_append_ne hK hover (hs.closes.continued _) ht)
    | cons w ws =>
      obtain ⟨hw, hws'⟩ := List.forall_mem_cons.1 hws
      rw [hcons, hcons] at h
      obtain ⟨rfl, hrest⟩ := hv w _ _ hw (hs.closes.continued _) (ht.closes.continued _) h
      obtain ⟨rfl, rfl⟩ := continued_append_inj (fun u hu => (hvs u hu).2) hws' hs ht hrest
      exact ⟨rfl, rfl⟩

theorem bracketed_append_inj (hK : Named K) (hvs : ∀ v ∈ vs, v.Over K ∧ v.Legible K)
    (hws : ∀ w ∈ ws, w.Over K)
    (h : Text.bracketed (vs.map render) ++ s = Text.bracketed (ws.map render) ++ t) :
    vs = ws ∧ s = t := by
  simp only [Text.bracketed, List.cons_append, List.append_assoc, List.nil_append,
    List.cons.injEq, true_and] at h
  obtain ⟨rfl, hrest⟩ :=
    commaSeparated_append_inj hK hvs hws (Text.ends_bracket s) (Text.ends_bracket t) h
  exact ⟨rfl, List.tail_eq_of_cons_eq hrest⟩

theorem tupled_append_inj (hK : Named K) (hvs : ∀ v ∈ vs, v.Over K ∧ v.Legible K)
    (hws : ∀ w ∈ ws, w.Over K)
    (h : Text.tupled (vs.map render) ++ s = Text.tupled (ws.map render) ++ t) :
    vs = ws ∧ s = t := by
  simp only [Text.tupled_eq, List.cons_append, List.append_assoc, List.cons.injEq, true_and] at h
  obtain ⟨rfl, hrest⟩ := commaSeparated_append_inj hK hvs hws (Text.ends_tupleEnd_append _ s)
    (Text.ends_tupleEnd_append _ t) h
  exact ⟨rfl, List.append_cancel_left hrest⟩

theorem applied_append_inj {name : String} (hK : Named K)
    (hvs : ∀ v ∈ vs, v.Over K ∧ v.Legible K) (hws : ∀ w ∈ ws, w.Over K)
    (h : Text.applied name (vs.map render) ++ s = Text.applied name (ws.map render) ++ t) :
    vs = ws ∧ s = t := by
  simp only [Text.applied, List.append_assoc, List.cons_append, List.nil_append,
    List.append_cancel_left_eq, List.cons.injEq, true_and] at h
  obtain ⟨rfl, hrest⟩ :=
    commaSeparated_append_inj hK hvs hws (Text.ends_paren s) (Text.ends_paren t) h
  exact ⟨rfl, List.tail_eq_of_cons_eq hrest⟩

theorem grammar_append_inj {g g' : Grammar} (hK : Named K)
    (hg : ∀ v ∈ g.map component, v.Over K ∧ v.Legible K) (hg' : ∀ w ∈ g'.map component, w.Over K)
    (h : (grammar g).render ++ s = (grammar g').render ++ t) : g = g' ∧ s = t := by
  rw [Grammar.render_eq, Grammar.render_eq] at h
  simp only [Text.applied, Text.commaSeparated, List.append_assoc, List.cons_append,
    List.nil_append, List.append_cancel_left_eq, List.cons.injEq, true_and] at h
  obtain ⟨hitems, hrest⟩ := bracketed_append_inj hK hg hg' h
  exact ⟨component_injective.list_map hitems, List.tail_eq_of_cons_eq hrest⟩

theorem component_append_inj {c d : Component} (hK : Named K)
    (hc : ∀ v ∈ c.payload, v.Over K ∧ v.Legible K) (hd : ∀ w ∈ d.payload, w.Over K)
    (hclass : c.cls = d.cls) (h : c.render ++ s = d.render ++ t) : c = d ∧ s = t := by
  rw [c.render_eq, d.render_eq, hclass] at h
  obtain ⟨hpayload, hrest⟩ := applied_append_inj hK hc hd h
  exact ⟨Component.eq_iff_payload.2 ⟨hclass, hpayload⟩, hrest⟩

/-- How written forms begin tells the classes of the values. -/
theorem cls_eq_of_lead_eq (hK : Named K) (hinj : K.InjOn UnknownClass.name) (hv : v.Over K)
    (hw : w.Over K) (h : v.lead = w.lead) : v.cls = w.cls := by
  have hname (c : Component) (hc : (component c).Over K) : c.cls.name.toList ≠ [] :=
    (hK.isName hc).ne_nil
  have hgrammar (cls : ComponentClass) : cls.name.toList ≠ "Grammar".toList :=
    fun h => cls.name_ne_grammar (String.toList_inj.1 h)
  rcases v with _ | (_ | _) | _ | _ | _ | _ | c | _ <;>
    rcases w with _ | (_ | _) | _ | _ | _ | _ | d | _ <;> try rfl
  case component.component =>
    have hnames := String.toList_inj.1 (congrArg Prod.fst h)
    exact congrArg ValueClass.component (ComponentClass.eq_of_name_eq hnames
      fun cls cls' hc hd => hinj (hv.mem_of_cls hc) (hw.mem_of_cls hd))
  -- The others differ in what they open, or else in the name before it.
  all_goals
    obtain ⟨hlead, hopen⟩ := Prod.mk.inj h
    first
      | exact absurd hopen (by decide)
      | exact absurd hlead (hname _ hv)
      | exact absurd hlead.symm (hname _ hw)
      | exact absurd hlead (hgrammar _)
      | exact absurd hlead.symm (hgrammar _)
      | exact absurd hlead (Text.ofInt_ne (by simp) _)
      | exact absurd hlead.symm (Text.ofInt_ne (by simp) _)
      | exact absurd hlead (by simp)

theorem legible (hK : Named K) (hinj : K.InjOn UnknownClass.name) (v : Value) (hv : v.Over K) :
    v.Legible K := by
  induction v using forall_of_parts with
  | h v ih =>
    intro w s t hw hs ht h
    have hlead : v.lead = w.lead := by
      rw [← lead_render hK hv hs, h, lead_render hK hw ht]
    have hcls : v.cls = w.cls := cls_eq_of_lead_eq hK hinj hv hw hlead
    have hparts : ∀ u ∈ v.parts, u.Over K ∧ u.Legible K := fun u hu =>
      ⟨(over_iff.1 hv).2 u hu, ih u hu ((over_iff.1 hv).2 u hu)⟩
    have hparts' : ∀ u ∈ w.parts, u.Over K := (over_iff.1 hw).2
    cases v <;> cases w
    case nothing.nothing => exact ⟨rfl, List.append_cancel_left h⟩
    case bool.bool a b =>
      have hne : "False".toList ≠ "True".toList := by simp
      have hname := congrArg Prod.fst hlead
      cases a <;> cases b
      case false.true => exact absurd hname hne
      case true.false => exact absurd hname.symm hne
      all_goals exact ⟨rfl, List.append_cancel_left h⟩
    case int.int m n =>
      obtain rfl := Text.ofInt_injective (congrArg Prod.fst hlead)
      exact ⟨rfl, List.append_cancel_left h⟩
    case text.text t u =>
      obtain ⟨rfl, rfl⟩ := Text.quoted_append_inj h
      exact ⟨rfl, rfl⟩
    case list.list vs ws =>
      rw [render, render, renderAll_eq_map, renderAll_eq_map] at h
      obtain ⟨rfl, rfl⟩ := bracketed_append_inj hK hparts hparts' h
      exact ⟨rfl, rfl⟩
    case tuple.tuple vs ws =>
      rw [render, render, renderAll_eq_map, renderAll_eq_map] at h
      obtain ⟨rfl, rfl⟩ := tupled_append_inj hK hparts hparts' h
      exact ⟨rfl, rfl⟩
    case component.component c d =>
      obtain ⟨rfl, rfl⟩ :=
        component_append_inj hK hparts hparts' (ValueClass.component.inj hcls) h
      exact ⟨rfl, rfl⟩
    case grammar.grammar g g' =>
      obtain ⟨rfl, rfl⟩ := grammar_append_inj hK hparts hparts' h
      exact ⟨rfl, rfl⟩
    all_goals exact nomatch hcls

/-- Over classes that have names, values that are written alike are one value, exactly if no two
of the classes have one name. -/
theorem written_forms_identify_values {K : Set UnknownClass}
    (hK : ∀ cls ∈ K, Text.IsName cls.name.toList) :
    (∀ v w : Value, v.Over K → w.Over K → v.render = w.render → v = w ∧ v.same w = true) ↔
      K.InjOn UnknownClass.name := by
  constructor
  · intro h cls hcls cls' hcls' hname
    have hrender :
        (component (.unknown cls [])).render = (component (.unknown cls' [])).render := by
      rw [render, render, Component.render_eq, Component.render_eq]
      exact congrArg (Text.applied · []) hname
    obtain ⟨heq, -⟩ := h _ _ (over_unknown hcls) (over_unknown hcls') hrender
    cases heq
    rfl
  · intro hinj v w hv hw h
    have hclosed : Text.Closes [] := by
      rintro c ⟨⟩
    obtain ⟨rfl, -⟩ := legible hK hinj v hv w [] [] hw hclosed hclosed (by rw [h])
    exact ⟨rfl, same_refl v⟩

theorem written_forms_identify_values_quotes :
    let K : Set UnknownClass := {.wildcard}
    let word : Word := ⟨Text.apostrophe, [')', ']', Text.doubleQuote]⟩
    let v : Value := .tuple [.grammar ([.literal word] ++ [.wildcard []]), .int (-12)]
    let w : Value := .tuple [.grammar [.literal word, .wildcard []], .int (-12)]
    (∀ cls ∈ K, Text.IsName cls.name.toList) ∧ v.Over K ∧ w.Over K ∧
      v.render = "(Grammar([Literal('\\')]\"'), Wildcard()]), -12)".toList ∧
        v = w ∧ v.same w = true := by
  intro K word v w
  have hK : ∀ cls ∈ K, Text.IsName cls.name.toList := by
    rintro cls rfl
    simp [Text.isName_iff, UnknownClass.wildcard, Text.delimits, Text.apostrophe, Text.doubleQuote]
  have hword : (component (.literal word)).Over K :=
    over_iff.2 ⟨nofun, List.forall_mem_singleton.2 (over_iff.2 ⟨nofun, List.forall_mem_nil _⟩)⟩
  have hgrammar : (grammar [.literal word, .wildcard []]).Over K :=
    over_iff.2 ⟨nofun, List.forall_mem_cons.2
      ⟨hword, List.forall_mem_singleton.2 (over_unknown rfl)⟩⟩
  have hv : v.Over K :=
    over_iff.2 ⟨nofun, List.forall_mem_cons.2
      ⟨hgrammar, List.forall_mem_singleton.2 (over_iff.2 ⟨nofun, List.forall_mem_nil _⟩)⟩⟩
  have hinj : K.InjOn UnknownClass.name := Set.injOn_singleton _ _
  exact ⟨hK, hv, hv, by decide, (written_forms_identify_values hK).2 hinj v w hv hv rfl⟩

/-- Two classes of one name cannot be told by what is written, nor can a class from two components
that its name spells. -/
theorem namesakes_are_written_alike :
    let namesake : UnknownClass := { UnknownClass.wildcard with number := 1 }
    let pair : UnknownClass := ⟨"Wildcard(), Wildcard", none, 0, by decide⟩
    let wild : Value := .component (.wildcard [])
    let other : Value := .component (.unknown namesake [])
    let both : Value := .list [wild, wild]
    let one : Value := .list [.component (.unknown pair [])]
    (wild.Buildable ∧ other.Buildable ∧ wild.render = other.render ∧ wild ≠ other ∧
      wild.same other = false) ∧
    both.Buildable ∧ one.Buildable ∧ both.render = one.render ∧ both ≠ one ∧
      both.same one = false := by
  intro namesake pair wild other both one
  have hunknown (cls : UnknownClass) : (component (.unknown cls [])).Buildable :=
    .unknown cls (List.forall_mem_nil _)
  have hboth : both.Buildable :=
    .list (List.forall_mem_cons.2 ⟨hunknown _, List.forall_mem_singleton.2 (hunknown _)⟩)
  have hone : one.Buildable := .list (List.forall_mem_singleton.2 (hunknown pair))
  have hwild : wild.same other = false := by
    simp [wild, other, namesake, UnknownClass.wildcard, same, Component.same]
  have hpair : both.same one = false := by
    simp [both, one, wild, pair, UnknownClass.wildcard, same, sameAll, Component.same]
  have hne {v w : Value} (h : v.same w = false) : v ≠ w := by
    rintro rfl
    exact absurd (same_refl v) (Bool.eq_false_iff.1 h)
  exact ⟨⟨hunknown _, hunknown _, rfl, hne hwild, hwild⟩, hboth, hone, by decide, hne hpair, hpair⟩

end Value

end GreedyMatch
