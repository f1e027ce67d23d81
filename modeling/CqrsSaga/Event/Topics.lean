import CqrsSaga.App.Kafka
import CqrsSaga.Event.Routed

/-!
# The names of topics

`publish` picks a topic by looking for the words order, payment and saga in the name it is given,
and appends a digest to it where the message has products or a correlation id.  A name it knows
none of these words in becomes another one.  `subscribe` turns the pattern of a family of topics
into an expression that asks for the dash after the name of the family, so the messages that go to
the topic without a digest are not matched.

## Main definitions

* `Op.SendsTo` — a message is sent to a topic with a property.
* `topicFamilies`, `Message.isSpecific` — the families of topics, and the messages that go to one of
  their own.
* `Extends`, `KeepsName` — a name with something after a dash, and the names `publish` keeps.

## Main results

* `pattern_agrees` — **exactly the messages with a topic of their own are matched by the pattern of
  their family**, and no others are.
* `publish_keeps` — **exactly which names `publish` keeps.**
-/

namespace CqrsSaga

open KafkaService

/-- The operation sends a message, to a topic with the property `P`. -/
def Op.SendsTo (P : String → Prop) : Op → Prop
  | .kafkaSend topic _ _ => P topic
  | _ => False

/-! ### Parts of texts -/

/-- A text that neither lies in the first part nor begins there is not to be found where the second
part is too short. -/
theorem not_infix_append {α : Type} {sub a b : List α} (hb : b.length < sub.length)
    (ha : ¬sub <:+: a)
    (hcut : ∀ n < sub.length, sub.length ≤ n + b.length → ¬sub.take n <:+ a) :
    ¬sub <:+: a ++ b := by
  intro h
  rcases List.infix_append_iff.mp h with h | h | ⟨l, r, rfl, hl, hr⟩
  · exact ha h
  · have := h.length_le
    omega
  · have hlen := hr.length_le
    rw [List.length_append] at hb hcut
    rcases Nat.eq_zero_or_pos r.length with hnil | hpos
    · rw [List.length_eq_zero_iff.mp hnil, List.append_nil] at ha
      exact ha hl.isInfix
    · refine hcut l.length (by omega) (by omega) ?_
      rw [List.take_left]
      exact hl

/-- What ends in a character the second part has not lies in the first part. -/
theorem infix_of_last {α : Type} {sub a b : List α} {c : α} (hc : c ∉ b)
    (h : sub ++ [c] <:+: a ++ b) : sub ++ [c] <:+: a := by
  have hmem : c ∈ sub ++ [c] := by simp
  rcases List.infix_append_iff.mp h with h | h | ⟨l, r, hlr, hl, hr⟩
  · exact h
  · exact absurd (h.subset hmem) hc
  · -- the last character would be in the second part
    rcases List.eq_nil_or_concat r with rfl | ⟨r, d, rfl⟩
    · rw [List.append_nil] at hlr
      rw [hlr]
      exact hl.isInfix
    · rw [List.concat_eq_append] at hlr hr
      rw [← List.append_assoc] at hlr
      have hd : c = d := List.singleton_inj.mp (List.append_inj' hlr rfl).2
      subst hd
      exact absurd (hr.subset (by simp)) hc

section Topics

variable [Hashes]

/-- The operation `publish` awaits. -/
theorem publish_only {t : String} {m : Message} {P : String → Prop} :
    (publish t m).Only (Op.SendsTo P) ↔ P (selectTopic t m) := by
  constructor
  · exact fun h => h.1
  · exact fun h => .perform h

/-- The part of the topic a correlation id accounts for. -/
def correlationHash (correlationId : String) : String :=
  ((Hashes.md5hex correlationId).take 8).copy

theorem length_productHash (item : OrderItem) : (productHash item).toList.length ≤ 8 := by
  unfold productHash
  rw [String.toList_copy_take, List.length_take]
  omega

theorem length_correlationHash (c : String) : (correlationHash c).toList.length ≤ 8 := by
  unfold correlationHash
  rw [String.toList_copy_take, List.length_take]
  omega

theorem generateTopic_eq (base : String) (items : List OrderItem) :
    generateTopicForProduct base items = match items.head?.map productHash with
      | some product => base ++ "-product-" ++ product
      | none => base := by
  cases items with
  | nil => rfl
  | cons item items => rfl

variable {t : String} {m : Message}

/-! ### The three words -/

/-- A name with the word order in it. -/
theorem selectTopic_of_order (h : (includes t "Order" || includes t "order") = true) :
    selectTopic t m = generateTopicForProduct "order-events" m.items := by
  rw [selectTopic, if_pos h]

/-- A name with the word payment in it. -/
theorem selectTopic_of_payment (horder : (includes t "Order" || includes t "order") = false)
    (h : (includes t "Payment" || includes t "payment") = true) :
    selectTopic t m = generateTopicForProduct "payment-events" m.items := by
  rw [selectTopic, horder, if_neg Bool.false_ne_true, if_pos h]

/-- A name with the word saga in it. -/
theorem selectTopic_of_saga (horder : (includes t "Order" || includes t "order") = false)
    (hpayment : (includes t "Payment" || includes t "payment") = false)
    (h : (includes t "Saga" || includes t "saga") = true) :
    selectTopic t m = match truthy m.correlationId with
      | some c => "saga-events-" ++ correlationHash c
      | none => "saga-events" := by
  rw [selectTopic, horder, hpayment, if_neg Bool.false_ne_true, if_neg Bool.false_ne_true, if_pos h]
  rfl

/-! ### Patterns -/

omit [Hashes] in
/-- The topics of the application, by the events they are for. -/
def topicFamilies : List String := ["order-events", "payment-events", "saga-events"]

omit [Hashes] in
/-- The message goes to a topic of its own: it has products or, about a saga, a correlation id. -/
def Message.isSpecific (f : String) (m : Message) : Bool :=
  if f = "saga-events" then (truthy m.correlationId).isSome else !m.items.isEmpty

/-- What those topics of a family begin with that have a digest. -/
def digestPrefix (f : String) : String :=
  if f = "saga-events" then f ++ "-" else f ++ "-product-"

theorem generateTopic_cases {f : String} (hf : f ≠ "saga-events") (m : Message) :
    (m.isSpecific f = true ∧ ∃ h : String, h.toList.length ≤ 8 ∧
      generateTopicForProduct f m.items = digestPrefix f ++ h) ∨
    m.isSpecific f = false ∧ generateTopicForProduct f m.items = f := by
  rw [generateTopic_eq, Message.isSpecific, digestPrefix, if_neg hf, if_neg hf]
  cases m.items with
  | nil => exact Or.inr ⟨rfl, rfl⟩
  | cons item items => exact Or.inl ⟨rfl, productHash item, length_productHash item, rfl⟩

/-- **A message of a family goes to the topic of the family, or to one with a digest.** -/
theorem selectTopic_cases {f : String} (hf : f ∈ topicFamilies) (m : Message) :
    (m.isSpecific f = true ∧ ∃ h : String, h.toList.length ≤ 8 ∧
      selectTopic f m = digestPrefix f ++ h) ∨
    m.isSpecific f = false ∧ selectTopic f m = f := by
  simp only [topicFamilies, List.mem_cons, List.not_mem_nil, or_false] at hf
  rcases hf with rfl | rfl | rfl
  · rw [selectTopic_of_order (by decide)]
    exact generateTopic_cases (by decide) m
  · rw [selectTopic_of_payment (by decide) (by decide)]
    exact generateTopic_cases (by decide) m
  · rw [selectTopic_of_saga (by decide) (by decide) (by decide),
      Message.isSpecific, digestPrefix, if_pos rfl, if_pos rfl]
    cases truthy m.correlationId with
    | none => exact Or.inr ⟨rfl, rfl⟩
    | some c => exact Or.inl ⟨rfl, correlationHash c, length_correlationHash c, rfl⟩

omit [Hashes] in
theorem replaceStar_append {cs : List Char} (h : '*' ∉ cs) (rest : List Char) :
    replaceStar (cs ++ '*' :: rest) = cs ++ '.' :: '*' :: rest := by
  induction cs with
  | nil => rfl
  | cons c cs ih =>
    rw [List.mem_cons, not_or] at h
    rw [List.cons_append, replaceStar, if_neg (Ne.symm h.1), ih h.2, List.cons_append]

omit [Hashes] in
/-- **The pattern of a family asks for its name and a dash.** -/
theorem matches_pattern {f name : String} (hf : ∀ c ∈ f.toList, Regex.isSpecial c = false) :
    (subscription (f ++ "-*")).matches name = true ↔ (f ++ "-").toList <:+: name.toList := by
  have hplain : ∀ c ∈ (f ++ "-").toList, Regex.isSpecial c = false := by
    intro c hc
    rw [String.toList_append, List.mem_append] at hc
    rcases hc with hc | hc
    · exact hf c hc
    · obtain rfl : c = '-' := by simpa using hc
      decide
  have hstar : '*' ∉ (f ++ "-").toList := by
    intro hc
    exact absurd (hplain _ hc) (by decide)
  have hsplit : (f ++ "-*").toList = (f ++ "-").toList ++ '*' :: [] := by
    simp [String.toList_append]
  have hincludes : includes (f ++ "-*") "*" = true := by
    rw [includes, hsplit, decide_eq_true_eq]
    exact ⟨(f ++ "-").toList, [], by simp⟩
  rw [subscription, hincludes, Bool.true_or, if_pos rfl, Subscription.matches, String.toList_ofList,
    hsplit, replaceStar_append hstar, Regex.parse_wildcard hplain, Option.any_some,
    Regex.test_wildcard]

omit [Hashes] in
/-- The name of no family, with a dash, is to be found in the topics of another one. -/
theorem families_apart : ∀ f ∈ topicFamilies, ∀ g ∈ topicFamilies, g ≠ f →
    8 < (f ++ "-").toList.length ∧ ¬(f ++ "-").toList <:+: g.toList ∧
      ¬(f ++ "-").toList <:+: (digestPrefix g).toList ∧
      ∀ n < (f ++ "-").toList.length, (f ++ "-").toList.length ≤ n + 8 →
        ¬(f ++ "-").toList.take n <:+ (digestPrefix g).toList := by
  decide

omit [Hashes] in
theorem families_plain : ∀ f ∈ topicFamilies, ∀ c ∈ f.toList, Regex.isSpecial c = false := by
  have hall : ∀ f ∈ topicFamilies, f.toList.all (fun c => !Regex.isSpecial c) = true := by decide
  intro f hf c hc
  simpa using List.all_eq_true.mp (hall f hf) c hc

/-- A message of a family is matched by its pattern if it has a topic of its own. -/
theorem matches_own {f : String} (hf : f ∈ topicFamilies) (m : Message) :
    (subscription (f ++ "-*")).matches (selectTopic f m) = m.isSpecific f := by
  have hprefix : ∃ rest, digestPrefix f = f ++ "-" ++ rest := by
    unfold digestPrefix
    split
    · exact ⟨"", by simp⟩
    · exact ⟨"product-", by rw [String.append_assoc]; rfl⟩
  rw [Bool.eq_iff_iff, matches_pattern (families_plain f hf)]
  rcases selectTopic_cases hf m with ⟨hm, h, -, htopic⟩ | ⟨hm, htopic⟩
  · obtain ⟨rest, hrest⟩ := hprefix
    rw [htopic, hm, hrest, String.toList_append, String.toList_append]
    exact iff_of_true ⟨[], rest.toList ++ h.toList, by simp⟩ rfl
  · rw [htopic, hm]
    refine iff_of_false (fun h => ?_) Bool.false_ne_true
    -- the dash is one character too many
    have := h.length_le
    rw [String.toList_append, List.length_append] at this
    simp at this

/-- A message of another family is not matched. -/
theorem matches_other {f g : String} (hf : f ∈ topicFamilies) (hg : g ∈ topicFamilies) (hne : g ≠ f)
    (m : Message) : (subscription (f ++ "-*")).matches (selectTopic g m) = false := by
  obtain ⟨hlen, hname, hprefix, hcut⟩ := families_apart f hf g hg hne
  rw [← Bool.not_eq_true, matches_pattern (families_plain f hf)]
  rcases selectTopic_cases hg m with ⟨-, h, hh, htopic⟩ | ⟨-, htopic⟩
  · rw [htopic, (String.toList_append : (digestPrefix g ++ h).toList = _)]
    refine not_infix_append (Nat.lt_of_le_of_lt hh hlen) hprefix fun n hn hle => ?_
    exact hcut n hn (by omega)
  · rw [htopic]
    exact hname

/-- **The messages that are matched by the pattern of their family are those with a topic of their
own**: with products or, about a saga, with a correlation id; and none of another family is. -/
theorem pattern_agrees {f : String} (hf : f ∈ topicFamilies) (m : Message) :
    ((publish f m).Only (Op.SendsTo fun topic =>
        (subscription (f ++ "-*")).matches topic = true) ∧
      ∀ g ∈ topicFamilies, g ≠ f → ∀ m', (publish g m').Only (Op.SendsTo fun topic =>
        (subscription (f ++ "-*")).matches topic = false)) ↔ m.isSpecific f = true := by
  constructor
  · rintro ⟨hown, -⟩
    rw [← matches_own hf]
    exact publish_only.mp hown
  · intro hm
    refine ⟨?_, fun g hg hne m' => ?_⟩
    · rw [publish_only, matches_own hf]
      exact hm
    · rw [publish_only]
      exact matches_other hf hg hne m'

/-! ### Names -/

omit [Hashes] in
/-- The name is `t`, or `t` with something after a dash. -/
def Extends (t name : String) : Prop := name = t ∨ ∃ suffix, name = t ++ "-" ++ suffix

omit [Hashes] in
theorem extends_of_dashless {t a : String} (ha : '-' ∉ a.toList) : Extends t a ↔ t = a := by
  constructor
  · rintro (h | ⟨suffix, rfl⟩)
    · exact h.symm
    · exact absurd (by simp [String.toList_append]) ha
  · rintro rfl
    exact Or.inl rfl

omit [Hashes] in
/-- The last part of a name is dropped as a whole, or not at all. -/
theorem extends_append {t a b : String} (hb : '-' ∉ b.toList) :
    Extends t (a ++ "-" ++ b) ↔ t = a ++ "-" ++ b ∨ Extends t a := by
  constructor
  · rintro (h | ⟨suffix, h⟩)
    · exact Or.inl h.symm
    · right
      have hlist : a.toList ++ '-' :: b.toList = t.toList ++ '-' :: suffix.toList := by
        have := congrArg String.toList h
        simpa [String.toList_append] using this
      rcases List.append_eq_append_iff.mp hlist with ⟨x, hx, hxs⟩ | ⟨x, hx, hxs⟩
      · cases x with
        | nil => exact Or.inl (String.toList_inj.mp (by simpa using hx.symm))
        | cons d x =>
          -- there is no dash left for `t` to end before
          rw [List.cons_append, List.cons.injEq] at hxs
          exact absurd (by simp [hxs.2]) hb
      · cases x with
        | nil => exact Or.inl (String.toList_inj.mp (by simpa using hx))
        | cons d x =>
          rw [List.cons_append, List.cons.injEq] at hxs
          obtain ⟨rfl, -⟩ := hxs
          refine Or.inr ⟨String.ofList x, String.toList_inj.mp ?_⟩
          simpa [String.toList_append] using hx
  · rintro (rfl | rfl | ⟨suffix, rfl⟩)
    · exact Or.inl rfl
    · exact Or.inr ⟨b, rfl⟩
    · exact Or.inr ⟨suffix ++ "-" ++ b, by simp [String.append_assoc]⟩

/-- A digest is a number in hexadecimal. -/
def Hexadecimal : Prop :=
  ∀ s, ∀ c ∈ (Hashes.md5hex s).toList, c ∈ "0123456789abcdef".toList

theorem Hexadecimal.product (h : Hexadecimal) (item : OrderItem) :
    ∀ c ∈ (productHash item).toList, c ∈ "0123456789abcdef".toList := by
  intro c hc
  unfold productHash at hc
  rw [String.toList_copy_take] at hc
  exact h _ c (List.mem_of_mem_take hc)

theorem Hexadecimal.correlation (h : Hexadecimal) (x : String) :
    ∀ c ∈ (correlationHash x).toList, c ∈ "0123456789abcdef".toList := by
  intro c hc
  unfold correlationHash at hc
  rw [String.toList_copy_take] at hc
  exact h _ c (List.mem_of_mem_take hc)

omit [Hashes] in
/-- Digits do not make up one of the words that tell of orders and payments. -/
theorem includes_digits {w a h : String} (hw : w ∈ ["Order", "order", "Payment", "payment"])
    (hh : ∀ c ∈ h.toList, c ∈ "0123456789abcdef".toList) (ha : includes a w = false) :
    includes (a ++ h) w = false := by
  have hlast : ∀ w ∈ ["Order", "order", "Payment", "payment"],
      w.toList.getLast? = some 'r' ∨ w.toList.getLast? = some 't' := by decide
  obtain ⟨c, hdigit, hwc⟩ : ∃ c, c ∉ "0123456789abcdef".toList ∧ w.toList.getLast? = some c := by
    rcases hlast w hw with h | h
    · exact ⟨'r', by decide, h⟩
    · exact ⟨'t', by decide, h⟩
  obtain ⟨sub, hsub⟩ := List.getLast?_eq_some_iff.mp hwc
  rw [includes, decide_eq_false_iff_not, hsub] at ha ⊢
  rw [String.toList_append]
  exact fun hin => ha (infix_of_last (fun hch => hdigit (hh c hch)) hin)

/-- The names a topic with products may be given by. -/
def KeepsProduct (w t : String) (items : List OrderItem) : Prop :=
  t = w ∨ t = w ++ "-events" ∨ ∃ item, items.head? = some item ∧
    (t = w ++ "-events-product" ∨ t = w ++ "-events-product-" ++ productHash item)

/-- The names the topic of a saga may be given by. -/
def KeepsCorrelation (t : String) (correlationId : Option String) : Prop :=
  t = "saga" ∨ t = "saga-events" ∨
    ∃ c, truthy correlationId = some c ∧ t = "saga-events-" ++ correlationHash c

/-- **The names `publish` keeps**, for a message. -/
def KeepsName (t : String) (m : Message) : Prop :=
  KeepsProduct "order" t m.items ∨ KeepsProduct "payment" t m.items ∨
    KeepsCorrelation t m.correlationId

omit [Hashes] in
theorem dashless_of_digits {h : String} (hh : ∀ c ∈ h.toList, c ∈ "0123456789abcdef".toList) :
    '-' ∉ h.toList :=
  fun hc => absurd (hh _ hc) (by decide)

omit [Hashes] in
theorem extends_events {w : String} (hw : '-' ∉ w.toList) :
    Extends t (w ++ "-events") ↔ t = w ∨ t = w ++ "-events" := by
  have hbase : w ++ "-events" = w ++ "-" ++ "events" := by
    rw [String.append_assoc]
    rfl
  rw [hbase, extends_append (by decide), extends_of_dashless hw, or_comm]

theorem extends_generate (hhex : Hexadecimal) {w : String} (hw : '-' ∉ w.toList)
    (items : List OrderItem) : Extends t (generateTopicForProduct (w ++ "-events") items) ↔
      KeepsProduct w t items := by
  have hevents := extends_events (t := t) hw
  rw [generateTopic_eq, KeepsProduct]
  cases items.head? with
  | none =>
    rw [Option.map_none]
    dsimp only
    rw [hevents]
    simp
  | some item =>
    have hdash := dashless_of_digits (hhex.product item)
    have hname : w ++ "-events" ++ "-product-" ++ productHash item =
        w ++ "-events" ++ "-" ++ "product" ++ "-" ++ productHash item := by
      apply String.toList_inj.mp
      simp [String.toList_append]
    have hproduct : w ++ "-events" ++ "-" ++ "product" = w ++ "-events-product" := by
      apply String.toList_inj.mp
      simp [String.toList_append]
    rw [Option.map_some]
    dsimp only
    rw [hname, extends_append hdash, extends_append (by decide), hevents, hproduct]
    have hdigest : w ++ "-events-product" ++ "-" ++ productHash item =
        w ++ "-events-product-" ++ productHash item := by
      apply String.toList_inj.mp
      simp [String.toList_append]
    rw [hdigest]
    simp only [Option.some.injEq, exists_eq_left']
    tauto

theorem extends_correlation (hhex : Hexadecimal) (correlationId : Option String) :
    Extends t (match truthy correlationId with
      | some c => "saga-events-" ++ correlationHash c
      | none => "saga-events") ↔ KeepsCorrelation t correlationId := by
  have hevents : Extends t "saga-events" ↔ t = "saga" ∨ t = "saga-events" :=
    extends_events (w := "saga") (by decide)
  rw [KeepsCorrelation]
  cases truthy correlationId with
  | none =>
    dsimp only
    rw [hevents]
    simp
  | some c =>
    have hdash := dashless_of_digits (hhex.correlation c)
    dsimp only
    rw [show "saga-events-" = "saga-events" ++ "-" by simp, extends_append hdash, hevents]
    simp only [Option.some.injEq, exists_eq_left']
    tauto

/-- A name that stands for the topic of an order. -/
theorem selectTopic_keeps_order {items : List OrderItem} (h : KeepsProduct "order" t items) :
    selectTopic t m = generateTopicForProduct "order-events" m.items := by
  refine selectTopic_of_order ?_
  have hword : ∀ rest, includes ("order" ++ rest) "order" = true := includes_append "" "order"
  rw [Bool.or_eq_true]
  right
  rcases h with rfl | rfl | ⟨item, -, rfl | rfl⟩
  · exact hword ""
  · exact hword _
  · exact hword _
  · rw [String.append_assoc]
    exact hword _

/-- A name that stands for the topic of a payment. -/
theorem selectTopic_keeps_payment (hhex : Hexadecimal) {items : List OrderItem}
    (h : KeepsProduct "payment" t items) :
    selectTopic t m = generateTopicForProduct "payment-events" m.items := by
  have hword : ∀ rest, includes ("payment" ++ rest) "payment" = true := includes_append "" "payment"
  have hclosed : ∀ a ∈ ["payment", "payment-events", "payment-events-product",
      "payment-events-product-"], includes a "Order" = false ∧ includes a "order" = false := by
    decide
  obtain ⟨horder, hpayment⟩ : (includes t "Order" = false ∧ includes t "order" = false) ∧
      includes t "payment" = true := by
    rcases h with rfl | rfl | ⟨item, -, rfl | rfl⟩
    · exact ⟨hclosed _ (by simp), hword ""⟩
    · exact ⟨hclosed _ (by simp), hword _⟩
    · exact ⟨hclosed _ (by simp), hword _⟩
    · have ha := hclosed ("payment" ++ "-events-product-") (by simp)
      have hdigits := hhex.product item
      refine ⟨⟨includes_digits (by simp) hdigits ha.1, includes_digits (by simp) hdigits ha.2⟩, ?_⟩
      rw [String.append_assoc]
      exact hword _
  exact selectTopic_of_payment (by simp [horder]) (by simp [hpayment])

/-- A name that stands for the topic of a saga. -/
theorem selectTopic_keeps_saga (hhex : Hexadecimal) {correlationId : Option String}
    (h : KeepsCorrelation t correlationId) :
    selectTopic t m = match truthy m.correlationId with
      | some c => "saga-events-" ++ correlationHash c
      | none => "saga-events" := by
  have hclosed : ∀ a ∈ ["saga", "saga-events", "saga-events-"],
      ∀ w ∈ ["Order", "order", "Payment", "payment"], includes a w = false := by decide
  have hsaga : ∀ a ∈ ["saga", "saga-events"], includes a "saga" = true := by decide
  obtain ⟨hothers, hword⟩ : (∀ w ∈ ["Order", "order", "Payment", "payment"], includes t w = false) ∧
      includes t "saga" = true := by
    rcases h with rfl | rfl | ⟨c, -, rfl⟩
    · exact ⟨hclosed _ (by simp), hsaga _ (by simp)⟩
    · exact ⟨hclosed _ (by simp), hsaga _ (by simp)⟩
    · refine ⟨fun w hw => ?_, ?_⟩
      · exact includes_digits hw (hhex.correlation c) (hclosed _ (by simp) w hw)
      · exact includes_append "" "saga" ("-events-" ++ correlationHash c)
  refine selectTopic_of_saga ?_ ?_ ?_
  · simp [hothers]
  · simp [hothers]
  · simp [hword]

/-- **Exactly which names `publish` keeps**: the name given is the one the message goes to, or what
that begins with up to a dash. -/
theorem publish_keeps (hhex : Hexadecimal) (t : String) (m : Message) :
    (publish t m).Only (Op.SendsTo (Extends t)) ↔ KeepsName t m := by
  have horder : Extends t (generateTopicForProduct "order-events" m.items) ↔
      KeepsProduct "order" t m.items := by
    simpa using extends_generate hhex (w := "order") (by decide) m.items
  have hpayment : Extends t (generateTopicForProduct "payment-events" m.items) ↔
      KeepsProduct "payment" t m.items := by
    simpa using extends_generate hhex (w := "payment") (by decide) m.items
  have hsaga := extends_correlation (t := t) hhex m.correlationId
  rw [publish_only]
  constructor
  · -- each branch of `selectTopic` picks a topic of one family
    intro h
    rw [selectTopic] at h
    split at h
    · exact Or.inl (horder.mp h)
    · split at h
      · exact Or.inr (Or.inl (hpayment.mp h))
      · split at h
        · exact Or.inr (Or.inr (hsaga.mp h))
        · split at h
          · rcases (extends_events (w := "saga") (by decide)).mp h with h | h
            · exact Or.inr (Or.inr (Or.inl h))
            · exact Or.inr (Or.inr (Or.inr (Or.inl h)))
          · rcases (extends_events (w := "order") (by decide)).mp h with h | h
            · exact Or.inl (Or.inl h)
            · exact Or.inl (Or.inr (Or.inl h))
  · rintro (h | h | h)
    · rw [selectTopic_keeps_order h, horder]
      exact h
    · rw [selectTopic_keeps_payment hhex h, hpayment]
      exact h
    · rw [selectTopic_keeps_saga hhex h, hsaga]
      exact h

end Topics

/-! ### Messages of the application -/

section Sent

open Samples

/-- An order that is created: its message carries the products. -/
theorem pattern_agrees_created :
    (publish "order-events" createdRecord.message).Only (Op.SendsTo fun topic =>
        (subscription ("order-events" ++ "-*")).matches topic = true) ∧
      ∀ g ∈ topicFamilies, g ≠ "order-events" → ∀ m', (publish g m').Only (Op.SendsTo fun topic =>
        (subscription ("order-events" ++ "-*")).matches topic = false) :=
  (pattern_agrees (by simp [topicFamilies]) createdRecord.message).mpr (by decide)

/-- **An order that is confirmed**: its message carries none, and is not matched. -/
theorem confirmed_unmatched : "order-events" ∈ topicFamilies ∧
    ¬(publish "order-events" confirmedRecord.message).Only (Op.SendsTo fun topic =>
      (subscription ("order-events" ++ "-*")).matches topic = true) := by
  refine ⟨by simp [topicFamilies], fun h => ?_⟩
  have := publish_only.mp h
  rw [matches_own (by simp [topicFamilies])] at this
  exact absurd this (by decide)

theorem sampleHashes_hexadecimal : Hexadecimal := by
  have hall : ∀ d ∈ ["42f1e2fa04bc46d2bd22d11514db6623", "21af6b8b5e2244835679bbdbe0ab03a6",
      "00000000000000000000000000000000"],
        d.toList.all (fun c => "0123456789abcdef".toList.contains c) = true := by
    decide
  have hclosed : ∀ d ∈ ["42f1e2fa04bc46d2bd22d11514db6623", "21af6b8b5e2244835679bbdbe0ab03a6",
      "00000000000000000000000000000000"], ∀ c ∈ d.toList, c ∈ "0123456789abcdef".toList := by
    intro d hd c hc
    exact List.contains_iff_mem.mp (List.all_eq_true.mp (hall d hd) c hc)
  intro s
  refine hclosed _ ?_
  change (if s = "product-1" then _ else if s = "key-1" then _ else _) ∈ _
  split
  · exact List.mem_cons_self
  · split <;> simp

theorem publish_keeps_created :
    (publish "order-events" createdRecord.message).Only (Op.SendsTo (Extends "order-events")) :=
  (publish_keeps sampleHashes_hexadecimal _ _).mpr (Or.inl (Or.inr (Or.inl rfl)))

/-- **The test message is sent among the orders.** -/
theorem testKafka_misplaced :
    AppController.testKafka.awaited? =
      some (.kafkaSend "order-events" none (.test "Hello Kafka!")) ∧
    ¬(publish "test-topic" (.test "Hello Kafka!")).Only (Op.SendsTo (Extends "test-topic")) := by
  have htopic : selectTopic "test-topic" (.test "Hello Kafka!") = "order-events" := by
    decide +kernel
  constructor
  · change some (Op.kafkaSend (selectTopic "test-topic" (.test "Hello Kafka!")) none _) = _
    rw [htopic]
  · rw [publish_only, htopic]
    rintro (h | ⟨suffix, h⟩)
    · exact absurd h (by decide)
    · have := congrArg (fun s : String => s.toList.head?) h
      simp [String.toList_append] at this

end Sent

end CqrsSaga
