import OpenAccounting.Domain.Einvoice

/-!
# What an electronic invoice keeps

A CII invoice is a tree of elements without any space between them.  An element that is left out is
told from one that is there by the name of what follows.
-/

namespace OpenAccounting.Einvoice

open Calendar Commit Xml

/-! ## Values -/

theorem lawful_entities : Entities entities where

theorem plain_esc (s : String) : Plain (esc s).toList := by
  rw [esc, String.toList_ofList]
  exact lawful_entities.plain_escape s.toList

theorem esc_injective : Function.Injective esc := by
  intro s s' h
  exact String.toList_injective (lawful_entities.escape_injective (String.ofList_injective h))

/-- The date without its sign. -/
def digits (d : NaiveDate) : List Char :=
  (RustStr.padZero 4 d.year.natAbs).toList ++ ((RustStr.padZero 2 d.month).toList ++
    (RustStr.padZero 2 d.day).toList)

theorem toList_compact (d : NaiveDate) : (compact d).toList =
    (if d.year < 0 then ['-'] else if 9999 < d.year then ['+'] else []) ++ digits d := by
  simp only [compact, digits, String.toList_append]
  split
  · simp
  · split <;> simp

theorem plain_compact (d : NaiveDate) : Plain (compact d).toList := by
  have hdigits : Plain (digits d) := by
    have hpad : ∀ width n, Plain (RustStr.padZero width n).toList := fun width n =>
      .of_isDigit fun c hc => RustStr.isDigit_of_mem_padZero hc
    exact (hpad _ _).append ((hpad _ _).append (hpad _ _))
  rw [toList_compact]
  refine Plain.append ?_ hdigits
  split
  · decide
  · split <;> decide

theorem compact_inj {d d' : NaiveDate} (hd : 0 ≤ d.year ∧ d.year ≤ 9999)
    (hd' : 0 ≤ d'.year ∧ d'.year ≤ 9999) (h : compact d = compact d') : d = d' := by
  have hlists := congrArg String.toList h
  rw [toList_compact, toList_compact, if_neg hd.1.not_gt, if_neg hd.2.not_gt, if_neg hd'.1.not_gt,
    if_neg hd'.2.not_gt, List.nil_append, List.nil_append, digits, digits] at hlists
  have hyear : (RustStr.padZero 4 d.year.natAbs).toList.length =
      (RustStr.padZero 4 d'.year.natAbs).toList.length := by
    rw [RustStr.length_padZero (by decide) (by omega),
      RustStr.length_padZero (by decide) (by omega)]
  have hmonth : (RustStr.padZero 2 d.month).toList.length =
      (RustStr.padZero 2 d'.month).toList.length := by
    have h := d.month_range
    have h' := d'.month_range
    rw [RustStr.length_padZero (by decide) (by omega),
      RustStr.length_padZero (by decide) (by omega)]
  obtain ⟨hyears, hrest⟩ := List.append_inj hlists hyear
  obtain ⟨hmonths, hdays⟩ := List.append_inj hrest hmonth
  have hread : ∀ {width m n}, (RustStr.padZero width m).toList = (RustStr.padZero width n).toList →
      m = n := by
    intro width m n heq
    rw [← RustStr.ofDigitChars_padZero width m, heq, RustStr.ofDigitChars_padZero]
  have habs := hread hyears
  have hsame : d.year = d'.year := by omega
  have hsome := NaiveDate.fromYmdOpt_eq_some.mpr ⟨hsame, hread hmonths, hread hdays⟩
  have hsome' := NaiveDate.fromYmdOpt_eq_some (d := d').mpr ⟨rfl, rfl, rfl⟩
  exact Option.some.inj (hsome.symm.trans hsome')

section

variable {dec : Decimal.Text} (hdec : dec.Lawful)

include hdec

theorem plain_number (x : Decimal.Scaled) : Plain (number dec x).toList :=
  .of_isAlphanum fun _ => hdec.mem_display

theorem number_inj {x y : Decimal.Scaled} (h : number dec x = number dec y) :
    x.value = y.value := by
  rw [← x.value_normalize, ← y.value_normalize]
  exact hdec.value_eq h

end

theorem plain_index (i : ℕ) : Plain (toString (i + 1)).toList := by
  refine .of_isDigit fun c hc => ?_
  rw [Nat.toString_eq_repr, Nat.toList_repr] at hc
  exact RustStr.isDigit_of_mem_toDigits hc

theorem of_esc_inj {s s' : String} (h : Text.of (esc s).toList = Text.of (esc s').toList) :
    s = s' :=
  esc_injective (String.toList_injective ((plain_esc s).of_inj (plain_esc s') h))

theorem of_number_inj {dec : Decimal.Text} (hdec : dec.Lawful) {x y : Decimal.Scaled}
    (h : Text.of (number dec x).toList = Text.of (number dec y).toList) : x.value = y.value :=
  number_inj hdec (String.toList_injective ((plain_number hdec x).of_inj (plain_number hdec y) h))

theorem of_compact_inj {d d' : NaiveDate} (hd : 0 ≤ d.year ∧ d.year ≤ 9999)
    (hd' : 0 ≤ d'.year ∧ d'.year ≤ 9999)
    (h : Text.of (compact d).toList = Text.of (compact d').toList) : d = d' :=
  compact_inj hd hd' (String.toList_injective ((plain_compact d).of_inj (plain_compact d') h))

/-! ## Trees -/

abbrev valueTree (name : TagName) (a : Attributes) (value : String) :
    Forest TagName → Forest TagName :=
  leaf [] [] name a value.toList

abbrev aroundTree (name : TagName) (children : Forest TagName → Forest TagName) :
    Forest TagName → Forest TagName :=
  block [] [] name {} children

/-- A text, if there is one. -/
abbrev optionalTree (name : TagName) (o : Option String) (next : Forest TagName) :
    Forest TagName :=
  o.elim next fun v => valueTree name {} (esc v) next

section

variable {name attributes value inner : String} {n : TagName} {a : Attributes}
  {k : Forest TagName → Forest TagName}

theorem writes_value (hname : name.toList = n.chars) (hattributes : attributes.toList = a.chars)
    (hvalue : Plain value.toList) :
    Writes TagName.chars [] (element name attributes value).toList (valueTree n a value) := by
  have h : Writes TagName.chars [] _ (valueTree n a value) :=
    .leaf (by decide) (by decide) n a hvalue
  simpa [element, hname, hattributes] using h

theorem writes_around (hname : name.toList = n.chars)
    (hinner : Writes TagName.chars [] inner.toList k) :
    Writes TagName.chars [] (element name "" inner).toList (aroundTree n k) := by
  have h := Writes.block (by decide) (by decide : Plain []) n {} hinner
  simpa [element, hname] using h

theorem writes_optional (hname : name.toList = n.chars) (o : Option String) :
    Writes TagName.chars [] (optional name o).toList (optionalTree n o) := by
  rw [optional]
  exact .optional o fun v => writes_value hname rfl (plain_esc v)

theorem optionalTree_inj {o o' : Option String} {next next' : Forest TagName}
    (h : optionalTree n o next = optionalTree n o' next') (hnext : next.head? ≠ some n)
    (hnext' : next'.head? ≠ some n) : o = o' ∧ next = next' := by
  refine optional_inj h (fun v v' f g heq => ?_) (fun v f => rfl) hnext hnext'
  simp only [leaf, Forest.element.injEq, Forest.last.injEq, true_and] at heq
  exact ⟨of_esc_inj heq.1, heq.2⟩

end

/-- `schemeID`. -/
def vatScheme : Attributes where
  chars := " schemeID=\"VA\"".toList

def addressTree (p : EinvoiceParty) (next : Forest TagName) : Forest TagName :=
  optionalTree (tag "ram:LineOne") (present p.addressLine) <|
  optionalTree (tag "ram:CityName") (present p.city) <|
  optionalTree (tag "ram:PostcodeCode") (present p.postalCode) <|
  optionalTree (tag "ram:CountryID") p.countryCode next

def vatTree (vat : String) : Forest TagName → Forest TagName :=
  aroundTree (tag "ram:SpecifiedTaxRegistration") (valueTree (tag "ram:ID") vatScheme (esc vat))

def partyTree (name : TagName) (p : EinvoiceParty) : Forest TagName → Forest TagName :=
  aroundTree name fun next =>
    valueTree (tag "ram:Name") {} (esc p.name) <|
    (present p.vatId).elim (aroundTree (tag "ram:PostalTradeAddress") (addressTree p) next)
      fun vat => vatTree vat (aroundTree (tag "ram:PostalTradeAddress") (addressTree p) next)

theorem writes_address (p : EinvoiceParty) :
    Writes TagName.chars [] (optional "ram:LineOne" (present p.addressLine) ++
        optional "ram:CityName" (present p.city) ++
        optional "ram:PostcodeCode" (present p.postalCode) ++
        optional "ram:CountryID" p.countryCode).toList (addressTree p) := by
  intro next rest hnext
  simp only [String.toList_append, List.append_assoc, addressTree]
  exact writes_optional rfl _ _ _ <| writes_optional rfl _ _ _ <| writes_optional rfl _ _ _ <|
    writes_optional rfl _ _ _ hnext

theorem writes_party {name : String} {n : TagName} (hname : name.toList = n.chars)
    (p : EinvoiceParty) : Writes TagName.chars [] (partyBlock name p).toList (partyTree n p) := by
  rw [partyBlock, partyTree]
  refine writes_around hname fun next rest hnext => ?_
  have hvat : ∀ vat, Writes TagName.chars [] (element "ram:SpecifiedTaxRegistration" ""
      (element "ram:ID" " schemeID=\"VA\"" (esc vat))).toList (vatTree vat) := fun vat =>
    writes_around rfl (writes_value rfl rfl (plain_esc vat))
  simp only [String.toList_append, List.append_assoc]
  exact writes_value rfl rfl (plain_esc _) _ _ <| Writes.optional _ hvat _ _ <|
    writes_around rfl (writes_address p) _ _ hnext

theorem head?_optionalTree {n m : TagName} {o : Option String} {next : Forest TagName} (hne : n ≠ m)
    (h : next.head? ≠ some m) : (optionalTree n o next).head? ≠ some m :=
  head?_optional (fun _ _ => rfl) hne h

theorem addressTree_inj {p p' : EinvoiceParty} {t t' : Text}
    (h : addressTree p (.last t) = addressTree p' (.last t')) :
    present p.addressLine = present p'.addressLine ∧ present p.city = present p'.city ∧
      present p.postalCode = present p'.postalCode ∧ p.countryCode = p'.countryCode := by
  have hlast : ∀ (t : Text) (n : TagName), (Forest.last t).head? ≠ some n := fun t n => nofun
  -- Nothing behind an element has its name.
  have hcode : ∀ (p : EinvoiceParty) t {n : TagName}, tag "ram:CountryID" ≠ n →
      (optionalTree (tag "ram:CountryID") p.countryCode (.last t)).head? ≠ some n :=
    fun p t n hne => head?_optionalTree hne (hlast t n)
  have hpostcode : ∀ (p : EinvoiceParty) t {n : TagName}, tag "ram:PostcodeCode" ≠ n →
      tag "ram:CountryID" ≠ n → (optionalTree (tag "ram:PostcodeCode") (present p.postalCode) <|
        optionalTree (tag "ram:CountryID") p.countryCode (.last t)).head? ≠ some n :=
    fun p t n hne hne' => head?_optionalTree hne (hcode p t hne')
  have hcity : ∀ (p : EinvoiceParty) t, (optionalTree (tag "ram:CityName") (present p.city) <|
      optionalTree (tag "ram:PostcodeCode") (present p.postalCode) <|
        optionalTree (tag "ram:CountryID") p.countryCode (.last t)).head? ≠
          some (tag "ram:LineOne") :=
    fun p t => head?_optionalTree (by decide) (hpostcode p t (by decide) (by decide))
  obtain ⟨hline, h⟩ := optionalTree_inj h (hcity p t) (hcity p' t')
  obtain ⟨hcity, h⟩ := optionalTree_inj h (hpostcode p t (by decide) (by decide))
    (hpostcode p' t' (by decide) (by decide))
  obtain ⟨hpostcode, h⟩ := optionalTree_inj h (hcode p t (by decide)) (hcode p' t' (by decide))
  obtain ⟨hcountry, -⟩ := optionalTree_inj h (hlast t _) (hlast t' _)
  exact ⟨hline, hcity, hpostcode, hcountry⟩

theorem present_vatId {d : EinvoiceData} (h : missing d = []) :
    present d.seller.vatId = d.seller.vatId ∧ present d.buyer.vatId = d.buyer.vatId := by
  have hparty : ∀ {role p}, missingOf role p = [] → present p.vatId = p.vatId := by
    intro role p hp
    rw [missingOf, List.append_eq_nil_iff, List.append_eq_nil_iff] at hp
    obtain ⟨⟨-, hvat⟩, -⟩ := hp
    cases hid : p.vatId with
    | none => rfl
    | some vat =>
      refine Option.filter_eq_some_iff.mpr ⟨rfl, decide_eq_true ?_⟩
      rintro rfl
      have hempty : (((some "").map RustStr.trim).map String.isEmpty).getD true = true := by
        decide
      rw [hid, if_pos hempty] at hvat
      exact absurd hvat (List.cons_ne_nil _ _)
  rw [missing, List.append_eq_nil_iff, List.append_eq_nil_iff] at h
  exact ⟨hparty h.1.1, hparty h.1.2⟩

/-- What is kept of a party.  An empty text in an address is as one that is not there. -/
def keptParty (p : EinvoiceParty) :
    String × Option String × Option String × Option String × Option String × Option String :=
  (p.name, p.vatId, present p.addressLine, present p.city, present p.postalCode, p.countryCode)

theorem partyTree_inj {n : TagName} {p p' : EinvoiceParty} {next next' : Forest TagName}
    (hp : present p.vatId = p.vatId) (hp' : present p'.vatId = p'.vatId)
    (h : partyTree n p next = partyTree n p' next') :
    keptParty p = keptParty p' ∧ next = next' := by
  rw [partyTree, partyTree] at h
  obtain ⟨hchildren, hnext⟩ := block_inj h
  obtain ⟨hname, hbody⟩ := leaf_inj hchildren
  have hvat : ∀ v v' f g, vatTree v f = vatTree v' g → v = v' ∧ f = g := by
    intro v v' f g heq
    rw [vatTree, vatTree] at heq
    obtain ⟨hvalue, hrest⟩ := block_inj heq
    exact ⟨of_esc_inj (leaf_inj hvalue).1, hrest⟩
  have hhead : ∀ p : EinvoiceParty, (aroundTree (tag "ram:PostalTradeAddress") (addressTree p)
      (.last (Text.of []))).head? ≠ some (tag "ram:SpecifiedTaxRegistration") :=
    fun p heq => absurd (Option.some.inj heq) (by decide)
  obtain ⟨hvats, haddress⟩ := optional_inj hbody hvat (fun _ _ => rfl) (hhead p) (hhead p')
  rw [hp, hp'] at hvats
  obtain ⟨hline, hcity, hpostcode, hcountry⟩ := addressTree_inj (block_inj haddress).1
  rw [keptParty, keptParty, of_esc_inj hname, hvats, hline, hcity, hpostcode, hcountry]
  exact ⟨rfl, hnext⟩

/-- `unitCode`. -/
def pieces : Attributes where
  chars := " unitCode=\"H87\"".toList

def dayFormat : Attributes where
  chars := " format=\"102\"".toList

section

variable {dec : Decimal.Text}

def lineTree (dec : Decimal.Text) (r : EinvoiceLine × ℕ) : Forest TagName → Forest TagName :=
  aroundTree (tag "ram:IncludedSupplyChainTradeLineItem") fun next =>
    aroundTree (tag "ram:AssociatedDocumentLineDocument")
      (valueTree (tag "ram:LineID") {} (toString (r.2 + 1))) <|
    aroundTree (tag "ram:SpecifiedTradeProduct")
      (valueTree (tag "ram:Name") {} (esc r.1.description)) <|
    aroundTree (tag "ram:SpecifiedLineTradeAgreement")
      (aroundTree (tag "ram:NetPriceProductTradePrice")
        (valueTree (tag "ram:ChargeAmount") {} (number dec r.1.unitPrice))) <|
    aroundTree (tag "ram:SpecifiedLineTradeDelivery")
      (valueTree (tag "ram:BilledQuantity") pieces (number dec r.1.quantity)) <|
    aroundTree (tag "ram:SpecifiedLineTradeSettlement")
      (aroundTree (tag "ram:SpecifiedTradeSettlementLineMonetarySummation")
        (valueTree (tag "ram:LineTotalAmount") {} (number dec r.1.amount))) next

theorem writes_line (hdec : dec.Lawful) (r : EinvoiceLine × ℕ) :
    Writes TagName.chars [] (ciiLine dec r.1 r.2).toList (lineTree dec r) := by
  rw [ciiLine, lineTree]
  refine writes_around rfl fun next rest hnext => ?_
  simp only [String.toList_append, List.append_assoc]
  exact writes_around rfl (writes_value rfl rfl (plain_index _)) _ _ <|
    writes_around rfl (writes_value rfl rfl (plain_esc _)) _ _ <|
    writes_around rfl (writes_around rfl (writes_value rfl rfl (plain_number hdec _))) _ _ <|
    writes_around rfl (writes_value rfl rfl (plain_number hdec _)) _ _ <|
    writes_around rfl (writes_around rfl (writes_value rfl rfl (plain_number hdec _))) _ _ hnext

def keptLine (l : EinvoiceLine) : String × ℚ × ℚ × ℚ :=
  (l.description, l.quantity.value, l.unitPrice.value, l.amount.value)

theorem lineTree_inj (hdec : dec.Lawful) {r r' : EinvoiceLine × ℕ} {next next' : Forest TagName}
    (h : lineTree dec r next = lineTree dec r' next') :
    keptLine r.1 = keptLine r'.1 ∧ next = next' := by
  rw [lineTree, lineTree] at h
  obtain ⟨hline, hnext⟩ := block_inj h
  obtain ⟨-, hline⟩ := block_inj hline
  obtain ⟨hproduct, hline⟩ := block_inj hline
  obtain ⟨hagreement, hline⟩ := block_inj hline
  obtain ⟨hdelivery, hline⟩ := block_inj hline
  obtain ⟨hsettlement, -⟩ := block_inj hline
  rw [keptLine, keptLine, of_esc_inj (leaf_inj hproduct).1,
    of_number_inj hdec (leaf_inj hdelivery).1,
    of_number_inj hdec (leaf_inj (block_inj hagreement).1).1,
    of_number_inj hdec (leaf_inj (block_inj hsettlement).1).1]
  exact ⟨rfl, hnext⟩

def totalsTree (dec : Decimal.Text) (total : Decimal.Scaled) : Forest TagName → Forest TagName :=
  aroundTree (tag "ram:SpecifiedTradeSettlementHeaderMonetarySummation") fun next =>
    valueTree (tag "ram:LineTotalAmount") {} (number dec total) <|
    valueTree (tag "ram:TaxBasisTotalAmount") {} (number dec total) <|
    valueTree (tag "ram:GrandTotalAmount") {} (number dec total) <|
    valueTree (tag "ram:DuePayableAmount") {} (number dec total) next

theorem writes_totals (hdec : dec.Lawful) (total : Decimal.Scaled) :
    Writes TagName.chars [] (ciiTotals dec total).toList (totalsTree dec total) := by
  have hvalue := plain_number hdec total
  rw [ciiTotals, totalsTree]
  refine writes_around rfl fun next rest hnext => ?_
  simp only [String.toList_append, List.append_assoc]
  exact writes_value rfl rfl hvalue _ _ <| writes_value rfl rfl hvalue _ _ <|
    writes_value rfl rfl hvalue _ _ <| writes_value rfl rfl hvalue _ _ hnext

def meansTree (code : String) : Forest TagName → Forest TagName :=
  aroundTree (tag "ram:SpecifiedTradeSettlementPaymentMeans")
    (valueTree (tag "ram:TypeCode") {} (esc code))

/-- The parties, the date it is due and how to pay. -/
def headTree (dec : Decimal.Text) (d : EinvoiceData) (next : Forest TagName) : Forest TagName :=
  aroundTree (tag "ram:ApplicableHeaderTradeAgreement") (fun next =>
    partyTree (tag "ram:SellerTradeParty") d.seller <|
    partyTree (tag "ram:BuyerTradeParty") d.buyer next) <|
  aroundTree (tag "ram:ApplicableHeaderTradeDelivery")
    (aroundTree (tag "ram:RequestedDeliveryPeriodDateTime")
      (valueTree (tag "udt:DateTimeString") dayFormat (compact d.dueDate))) <|
  aroundTree (tag "ram:ApplicableHeaderTradeSettlement") (fun next =>
    valueTree (tag "ram:InvoiceCurrencyCode") {} (esc d.currency) <|
    (present d.paymentMeansCode).elim (totalsTree dec d.totalNet next) fun code =>
      meansTree code (totalsTree dec d.totalNet next)) next

def transactionTree (dec : Decimal.Text) (d : EinvoiceData) (next : Forest TagName) :
    Forest TagName :=
  d.lines.zipIdx.foldr (lineTree dec) (headTree dec d next)

theorem writes_transaction (hdec : dec.Lawful) (d : EinvoiceData) :
    Writes TagName.chars [] (ciiTransaction dec d).toList (transactionTree dec d) := by
  have hlines : Writes TagName.chars []
      (String.join (d.lines.zipIdx.map fun r => ciiLine dec r.1 r.2)).toList
      fun next => d.lines.zipIdx.foldr (lineTree dec) next := by
    rw [String.toList_join, List.flatMap_map]
    exact .flatMap fun r _ => writes_line hdec r
  have hmeans : ∀ code, Writes TagName.chars [] (element "ram:SpecifiedTradeSettlementPaymentMeans"
      "" (element "ram:TypeCode" "" (esc code))).toList (meansTree code) := fun code =>
    writes_around rfl (writes_value rfl rfl (plain_esc code))
  have hparties : Writes TagName.chars [] (partyBlock "ram:SellerTradeParty" d.seller ++
      partyBlock "ram:BuyerTradeParty" d.buyer).toList fun next =>
        partyTree (tag "ram:SellerTradeParty") d.seller <|
          partyTree (tag "ram:BuyerTradeParty") d.buyer next := by
    intro next rest hnext
    rw [String.toList_append, List.append_assoc]
    exact writes_party rfl _ _ _ <| writes_party rfl _ _ _ hnext
  have hsettlement : Writes TagName.chars []
      (element "ram:InvoiceCurrencyCode" "" (esc d.currency) ++
        ((present d.paymentMeansCode).elim "" fun code =>
          element "ram:SpecifiedTradeSettlementPaymentMeans" ""
            (element "ram:TypeCode" "" (esc code))) ++
        ciiTotals dec d.totalNet).toList fun next =>
        valueTree (tag "ram:InvoiceCurrencyCode") {} (esc d.currency) <|
          (present d.paymentMeansCode).elim (totalsTree dec d.totalNet next) fun code =>
            meansTree code (totalsTree dec d.totalNet next) := by
    intro next rest hnext
    simp only [String.toList_append, List.append_assoc]
    exact writes_value rfl rfl (plain_esc _) _ _ <| Writes.optional _ hmeans _ _ <|
      writes_totals hdec _ _ _ hnext
  intro next rest hnext
  simp only [ciiTransaction, String.toList_append, List.append_assoc]
  exact hlines _ _ <| writes_around rfl hparties _ _ <|
    writes_around rfl (writes_around rfl (writes_value rfl rfl (plain_compact _))) _ _ <|
    writes_around rfl hsettlement _ _ hnext

def FourDigits (d : NaiveDate) : Prop := 0 ≤ d.year ∧ d.year ≤ 9999

theorem head?_headTree (d : EinvoiceData) (next : Forest TagName) :
    (headTree dec d next).head? = some (tag "ram:ApplicableHeaderTradeAgreement") := rfl

theorem head?_lineTree (r : EinvoiceLine × ℕ) (next : Forest TagName) :
    (lineTree dec r next).head? = some (tag "ram:IncludedSupplyChainTradeLineItem") := rfl

variable {d d' : EinvoiceData}

/-- The head tells the parties, the due date, the currency, the means of payment and the total. -/
theorem headTree_inj (hdec : dec.Lawful) {t t' : Text} (hd : missing d = [])
    (hd' : missing d' = []) (hdue : FourDigits d.dueDate) (hdue' : FourDigits d'.dueDate)
    (h : headTree dec d (.last t) = headTree dec d' (.last t')) :
    keptParty d.seller = keptParty d'.seller ∧ keptParty d.buyer = keptParty d'.buyer ∧
      d.dueDate = d'.dueDate ∧ d.currency = d'.currency ∧
      present d.paymentMeansCode = present d'.paymentMeansCode ∧
      d.totalNet.value = d'.totalNet.value := by
  rw [headTree, headTree] at h
  obtain ⟨hagreement, h⟩ := block_inj h
  obtain ⟨hdelivery, h⟩ := block_inj h
  obtain ⟨hsettlement, -⟩ := block_inj h
  obtain ⟨hsellers, hbuyers⟩ := present_vatId hd
  obtain ⟨hsellers', hbuyers'⟩ := present_vatId hd'
  obtain ⟨hseller, hparties⟩ := partyTree_inj hsellers hsellers' hagreement
  obtain ⟨hbuyer, -⟩ := partyTree_inj hbuyers hbuyers' hparties
  obtain ⟨hdate, -⟩ := leaf_inj (block_inj hdelivery).1
  obtain ⟨hcurrency, hbody⟩ := leaf_inj hsettlement
  have hcode : ∀ v v' f g, meansTree v f = meansTree v' g → v = v' ∧ f = g := by
    intro v v' f g heq
    rw [meansTree, meansTree] at heq
    obtain ⟨hvalue, hrest⟩ := block_inj heq
    exact ⟨of_esc_inj (leaf_inj hvalue).1, hrest⟩
  have hhead : ∀ d : EinvoiceData, (totalsTree dec d.totalNet (.last (Text.of []))).head? ≠
      some (tag "ram:SpecifiedTradeSettlementPaymentMeans") :=
    fun d heq => absurd (Option.some.inj heq) (by decide)
  obtain ⟨hcodes, htotals⟩ := optional_inj hbody hcode (fun _ _ => rfl) (hhead d) (hhead d')
  rw [totalsTree, totalsTree] at htotals
  obtain ⟨htotal, -⟩ := leaf_inj (block_inj htotals).1
  exact ⟨hseller, hbuyer, of_compact_inj hdue hdue' hdate, of_esc_inj hcurrency, hcodes,
    of_number_inj hdec htotal⟩

theorem transactionTree_inj (hdec : dec.Lawful) {t t' : Text}
    (h : transactionTree dec d (.last t) = transactionTree dec d' (.last t')) :
    d.lines.map keptLine = d'.lines.map keptLine ∧
      headTree dec d (.last t) = headTree dec d' (.last t') := by
  have hne : ∀ (d : EinvoiceData) t r f, lineTree dec r f ≠ headTree dec d (.last t) := by
    intro d t r f heq
    have hhead := congrArg Forest.head? heq
    rw [head?_lineTree, head?_headTree] at hhead
    exact absurd (Option.some.inj hhead) (by decide)
  obtain ⟨hkept, hhead⟩ := foldr_inj h
    (fun r _ r' _ f g heq => (lineTree_inj hdec heq : keptLine r.1 = keptLine r'.1 ∧ f = g))
    (hne d' t') (hne d t)
  have hlines : ∀ xs : List EinvoiceLine,
      (xs.zipIdx.map fun r => keptLine r.1) = xs.map keptLine := by
    intro xs
    conv_rhs => rw [← List.zipIdx_map_fst 0 xs, List.map_map]
    rfl
  rw [hlines, hlines] at hkept
  exact ⟨hkept, hhead⟩

/-! ## Documents -/

def documentTree (d : EinvoiceData) : Forest TagName → Forest TagName :=
  aroundTree (tag "rsm:ExchangedDocument") fun next =>
    valueTree (tag "ram:ID") {} (esc d.number) <|
    valueTree (tag "ram:TypeCode") {} "380" <|
    aroundTree (tag "ram:IssueDateTime")
      (valueTree (tag "udt:DateTimeString") dayFormat (compact d.date)) next

theorem writes_document (d : EinvoiceData) :
    Writes TagName.chars [] (ciiDocument d).toList (documentTree d) := by
  rw [ciiDocument, documentTree]
  refine writes_around rfl fun next rest hnext => ?_
  simp only [String.toList_append, List.append_assoc]
  exact writes_value rfl rfl (plain_esc _) _ _ <| writes_value rfl rfl (by decide) _ _ <|
    writes_around rfl (writes_value rfl rfl (plain_compact _)) _ _ hnext

def bodyTree (dec : Decimal.Text) (d : EinvoiceData) : Forest TagName :=
  documentTree d <|
    aroundTree (tag "rsm:SupplyChainTradeTransaction") (transactionTree dec d) (.last (Text.of []))

theorem render_bodyTree (hdec : dec.Lawful) (d : EinvoiceData) :
    (bodyTree dec d).render TagName.chars = (ciiDocument d ++
      element "rsm:SupplyChainTradeTransaction" "" (ciiTransaction dec d)).toList := by
  have hbody := writes_document d _ _ <|
    writes_around (n := tag "rsm:SupplyChainTradeTransaction") rfl (writes_transaction hdec d)
      (.last (Text.of [])) [] rfl
  rw [bodyTree, hbody, String.toList_append, List.nil_append, List.append_nil]

theorem element_inj {name attributes x y : String}
    (h : element name attributes x = element name attributes y) : x = y := by
  refine String.toList_injective ?_
  simpa [element] using congrArg String.toList h

theorem ciiXml_eq_ok {text : String} : ciiXml dec d = .ok text ↔
    missing d = [] ∧ prolog ++ element "rsm:CrossIndustryInvoice" ciiNamespaces (ciiContext ++
      ciiDocument d ++ element "rsm:SupplyChainTradeTransaction" "" (ciiTransaction dec d)) =
        text := by
  rw [ciiXml, validate]
  constructor
  · intro h
    obtain ⟨u, hvalid, htext⟩ := bind_eq_ok.mp h
    exact ⟨ensure_eq_ok.mp hvalid, Except.ok.inj htext⟩
  · rintro ⟨hvalid, rfl⟩
    exact bind_eq_ok.mpr ⟨(), ensure_eq_ok.mpr hvalid, rfl⟩

/-- What is kept of an invoice. -/
def kept (d : EinvoiceData) :=
  (d.number, d.date, d.dueDate, d.currency, keptParty d.seller, keptParty d.buyer,
    d.lines.map keptLine, d.totalNet.value, present d.paymentMeansCode)

/-- Two invoices with the same text agree in all that is kept. -/
theorem kept_eq (hdec : dec.Lawful) {text : String} (hdate : FourDigits d.date)
    (hdate' : FourDigits d'.date) (hdue : FourDigits d.dueDate) (hdue' : FourDigits d'.dueDate)
    (h : ciiXml dec d = .ok text) (h' : ciiXml dec d' = .ok text) :
    kept d = kept d' := by
  obtain ⟨hd, rfl⟩ := ciiXml_eq_ok.mp h
  obtain ⟨hd', htext⟩ := ciiXml_eq_ok.mp h'
  have hroot := element_inj ((String.append_right_inj _).mp htext)
  rw [String.append_assoc, String.append_assoc] at hroot
  have hbody := congrArg String.toList ((String.append_right_inj _).mp hroot).symm
  rw [← render_bodyTree hdec, ← render_bodyTree hdec] at hbody
  have htree := Forest.render_injective TagName.spelling hbody
  rw [bodyTree, bodyTree, documentTree, documentTree] at htree
  obtain ⟨hdocument, htransaction⟩ := block_inj htree
  obtain ⟨hnumber, hdocument⟩ := leaf_inj hdocument
  obtain ⟨-, hdocument⟩ := leaf_inj hdocument
  obtain ⟨hissued, -⟩ := leaf_inj (block_inj hdocument).1
  obtain ⟨hlines, hhead⟩ := transactionTree_inj hdec (block_inj htransaction).1
  obtain ⟨hseller, hbuyer, hdueDate, hcurrency, hcode, htotal⟩ :=
    headTree_inj hdec hd hd' hdue hdue' hhead
  rw [kept, kept, of_esc_inj hnumber, of_compact_inj hdate hdate' hissued, hlines, hseller, hbuyer,
    hdueDate, hcurrency, hcode, htotal]

theorem error_iff {text : String} {fields : List String} :
    (validate d >>= fun _ => Except.ok text) = .error fields ↔ validate d = .error fields := by
  cases validate d with
  | error e =>
    have hbind : ((Except.error e : Except (List String) Unit) >>= fun _ => Except.ok text) =
      .error e := rfl
    rw [hbind, Except.error.injEq, Except.error.injEq]
  | ok u => exact ⟨nofun, nofun⟩

/-- Two invoices of years with four digits that are written as one text agree in all that is kept,
and both formats refuse the same invoices for the same missing fields. -/
theorem ciiXml_faithful (hdec : dec.Lawful) :
    (∀ d d' text, FourDigits d.date → FourDigits d'.date → FourDigits d.dueDate →
      FourDigits d'.dueDate → ciiXml dec d = .ok text → ciiXml dec d' = .ok text →
        kept d = kept d') ∧
      ∀ d fields, ciiXml dec d = .error fields ↔ ublXml dec d = .error fields :=
  ⟨fun _ _ _ => kept_eq hdec, fun _ _ => error_iff.trans error_iff.symm⟩

end

namespace Sample

theorem hundred_range : |(100 : ℤ)| < 2 ^ 96 := by decide

/-- An invoice to a buyer in a city. -/
def invoice (city : Option String) : EinvoiceData where
  number := "2026-000001"
  date := ⟨2026, 8, 1, by decide, by decide, by decide⟩
  dueDate := ⟨2026, 8, 31, by decide, by decide, by decide⟩
  currency := "EUR"
  seller :=
    ⟨"Seller GmbH", some "DE123456789", some "Str. 1", some "Berlin", some "10115", some "DE"⟩
  buyer := ⟨"Buyer SA", some "FR09876543210", none, city, none, some "FR"⟩
  lines :=
    [⟨"Widget", { coeff := 2, scale := 0, scale_range := Decimal.Scaled.whole_range },
      { coeff := 50, scale := 0, scale_range := Decimal.Scaled.whole_range },
      ⟨100, 0, hundred_range, Decimal.Scaled.whole_range⟩⟩]
  totalNet := { coeff := 1000, scale := 1 }
  paymentMeansCode := some "30"

end Sample

/-- An empty city is as none. -/
theorem ciiXml_faithful_invoice : kept (Sample.invoice (some "")) = kept (Sample.invoice none) := by
  have hvalid : missing (Sample.invoice none) = [] := by decide
  have htext : ciiXml Decimal.plain (Sample.invoice none) = .ok _ :=
    ciiXml_eq_ok.mpr ⟨hvalid, rfl⟩
  have hyear : FourDigits (Sample.invoice none).date := ⟨by decide, by decide⟩
  exact (ciiXml_faithful Decimal.plain_lawful).1 _ _ _ hyear hyear hyear hyear
    (ciiXml_eq_ok.mpr ⟨hvalid, rfl⟩) htext

end OpenAccounting.Einvoice
