import OpenAccounting.Lib.Calendar
import OpenAccounting.Lib.Commit
import OpenAccounting.Lib.DecimalText
import OpenAccounting.Lib.Xml

/-!
# Electronic invoices

`domain/einvoice.rs`: an invoice is written as CII or as UBL.  Both formats have fields that must
not be missing, and list those that are.
-/

namespace OpenAccounting.Einvoice

open Calendar Commit

structure EinvoiceParty where
  name : String
  vatId : Option String
  addressLine : Option String
  city : Option String
  postalCode : Option String
  countryCode : Option String

structure EinvoiceLine where
  description : String
  quantity : Decimal.Scaled
  unitPrice : Decimal.Scaled
  amount : Decimal.Scaled

structure EinvoiceData where
  number : String
  date : NaiveDate
  dueDate : NaiveDate
  currency : String
  seller : EinvoiceParty
  buyer : EinvoiceParty
  lines : List EinvoiceLine
  totalNet : Decimal.Scaled
  paymentMeansCode : Option String

/-- The characters that `esc` replaces, in this order. -/
def entities : List (Char × List Char) :=
  [('&', ['&', 'a', 'm', 'p', ';']), ('<', ['&', 'l', 't', ';']), ('>', ['&', 'g', 't', ';']),
    ('"', ['&', 'q', 'u', 'o', 't', ';'])]

def esc (s : String) : String := String.ofList (Xml.escape entities s.toList)

/-- The mandatory fields that a party does not have. -/
def missingOf (role : String) (p : EinvoiceParty) : List String :=
  (if RustStr.trim p.name = "" then [role ++ ".name"] else []) ++
    (if ((p.vatId.map RustStr.trim).map String.isEmpty).getD true = true then [role ++ ".vat_id"]
      else []) ++
    (if p.countryCode = none then [role ++ ".country_code"] else [])

/-- The mandatory fields that an invoice does not have. -/
def missing (d : EinvoiceData) : List String :=
  missingOf "seller" d.seller ++ missingOf "buyer" d.buyer ++
    (if d.lines = [] then ["lines"] else [])

def validate (d : EinvoiceData) : Except (List String) Unit := ensure (missing d = []) (missing d)

/-- A value that is there and not empty. -/
def present (o : Option String) : Option String := o.filter fun v => v ≠ ""

def element (tag attributes inner : String) : String :=
  "<" ++ tag ++ attributes ++ ">" ++ inner ++ "</" ++ tag ++ ">"

/-- An element with a text, if there is one. -/
def optional (tag : String) (value : Option String) : String :=
  value.elim "" fun v => element tag "" (esc v)

/-- The first line of both formats. -/
def prolog : String := "<?xml version=\"1.0\" encoding=\"UTF-8\"?>"

/-! ## CII -/

def partyBlock (tag : String) (p : EinvoiceParty) : String :=
  element tag "" <|
    element "ram:Name" "" (esc p.name) ++
    ((present p.vatId).elim "" fun vat =>
      element "ram:SpecifiedTaxRegistration" "" (element "ram:ID" " schemeID=\"VA\"" (esc vat))) ++
    element "ram:PostalTradeAddress" "" (
      optional "ram:LineOne" (present p.addressLine) ++
      optional "ram:CityName" (present p.city) ++
      optional "ram:PostcodeCode" (present p.postalCode) ++
      optional "ram:CountryID" p.countryCode)

/-- The date in the format `%Y%m%d`. -/
def compact (d : NaiveDate) : String :=
  let sign := if d.year < 0 then "-" else if 9999 < d.year then "+" else ""
  sign ++ RustStr.padZero 4 d.year.natAbs ++ RustStr.padZero 2 d.month ++ RustStr.padZero 2 d.day

section

variable (dec : Decimal.Text)

/-- The text of a number without zeros at its end. -/
def number (x : Decimal.Scaled) : String := dec.display x.normalize

/-- A line, with its index. -/
def ciiLine (l : EinvoiceLine) (i : ℕ) : String :=
  element "ram:IncludedSupplyChainTradeLineItem" "" <|
    element "ram:AssociatedDocumentLineDocument" ""
      (element "ram:LineID" "" (toString (i + 1))) ++
    element "ram:SpecifiedTradeProduct" "" (element "ram:Name" "" (esc l.description)) ++
    element "ram:SpecifiedLineTradeAgreement" ""
      (element "ram:NetPriceProductTradePrice" ""
        (element "ram:ChargeAmount" "" (number dec l.unitPrice))) ++
    element "ram:SpecifiedLineTradeDelivery" ""
      (element "ram:BilledQuantity" " unitCode=\"H87\"" (number dec l.quantity)) ++
    element "ram:SpecifiedLineTradeSettlement" ""
      (element "ram:SpecifiedTradeSettlementLineMonetarySummation" ""
        (element "ram:LineTotalAmount" "" (number dec l.amount)))

/-- The sums of an invoice. -/
def ciiTotals (total : Decimal.Scaled) : String :=
  element "ram:SpecifiedTradeSettlementHeaderMonetarySummation" "" <|
    element "ram:LineTotalAmount" "" (number dec total) ++
    element "ram:TaxBasisTotalAmount" "" (number dec total) ++
    element "ram:GrandTotalAmount" "" (number dec total) ++
    element "ram:DuePayableAmount" "" (number dec total)

/-- What is in the transaction of an invoice. -/
def ciiTransaction (d : EinvoiceData) : String :=
  String.join (d.lines.zipIdx.map fun r => ciiLine dec r.1 r.2) ++
  element "ram:ApplicableHeaderTradeAgreement" ""
    (partyBlock "ram:SellerTradeParty" d.seller ++ partyBlock "ram:BuyerTradeParty" d.buyer) ++
  element "ram:ApplicableHeaderTradeDelivery" ""
    (element "ram:RequestedDeliveryPeriodDateTime" ""
      (element "udt:DateTimeString" " format=\"102\"" (compact d.dueDate))) ++
  element "ram:ApplicableHeaderTradeSettlement" "" (
    element "ram:InvoiceCurrencyCode" "" (esc d.currency) ++
    ((present d.paymentMeansCode).elim "" fun code =>
      element "ram:SpecifiedTradeSettlementPaymentMeans" ""
        (element "ram:TypeCode" "" (esc code))) ++
    ciiTotals dec d.totalNet)

/-- The name spaces of a CII document. -/
def ciiNamespaces : String :=
  " xmlns:rsm=\"urn:un:unece:uncefact:data:standard:CrossIndustryInvoice:100\"" ++
  " xmlns:ram=\"urn:un:unece:uncefact:data:standard:" ++
    "ReusableAggregateBusinessInformationEntity:100\"" ++
  " xmlns:udt=\"urn:un:unece:uncefact:data:standard:UnqualifiedDataType:100\""

def ciiContext : String :=
  element "rsm:ExchangedDocumentContext" ""
    (element "ram:GuidelineSpecifiedDocumentContextParameter" ""
      (element "ram:ID" "" "urn:cen.eu:en16931:2017"))

def ciiDocument (d : EinvoiceData) : String :=
  element "rsm:ExchangedDocument" "" <|
    element "ram:ID" "" (esc d.number) ++
    element "ram:TypeCode" "" "380" ++
    element "ram:IssueDateTime" ""
      (element "udt:DateTimeString" " format=\"102\"" (compact d.date))

def ciiXml (d : EinvoiceData) : Except (List String) String := do
  validate d
  .ok (prolog ++ element "rsm:CrossIndustryInvoice" ciiNamespaces (ciiContext ++ ciiDocument d ++
    element "rsm:SupplyChainTradeTransaction" "" (ciiTransaction dec d)))

/-! ## UBL -/

def postalUbl (p : EinvoiceParty) : String :=
  optional "cbc:StreetName" (present p.addressLine) ++
  optional "cbc:CityName" (present p.city) ++
  optional "cbc:PostalZone" (present p.postalCode) ++
  (p.countryCode.elim "" fun code =>
    element "cac:Country" "" (element "cbc:IdentificationCode" "" (esc code)))

def ublParty (tag : String) (p : EinvoiceParty) : String :=
  element tag "" <| element "cac:Party" "" <|
    element "cac:PartyName" "" (element "cbc:Name" "" (esc p.name)) ++
    element "cac:PostalAddress" "" (postalUbl p) ++
    element "cac:PartyTaxScheme" "" (
      element "cbc:CompanyID" "" (esc (p.vatId.getD "")) ++
      element "cac:TaxScheme" "" (element "cbc:ID" "" "VAT"))

/-- An attribute with a currency. -/
def currencyId (currency : String) : String := " currencyID=\"" ++ esc currency ++ "\""

/-- A line, with its index. -/
def ublLine (currency : String) (l : EinvoiceLine) (i : ℕ) : String :=
  element "cac:InvoiceLine" "" <|
    element "cbc:ID" "" (toString (i + 1)) ++
    element "cbc:InvoicedQuantity" " unitCode=\"H87\"" (number dec l.quantity) ++
    element "cbc:LineExtensionAmount" (currencyId currency) (number dec l.amount) ++
    element "cac:Item" "" (element "cbc:Name" "" (esc l.description)) ++
    element "cac:Price" ""
      (element "cbc:PriceAmount" (currencyId currency) (number dec l.unitPrice))

/-- The name spaces of a UBL document. -/
def ublNamespaces : String :=
  " xmlns=\"urn:oasis:names:specification:ubl:schema:xsd:Invoice-2\"" ++
  " xmlns:cac=\"urn:oasis:names:specification:ubl:schema:xsd:CommonAggregateComponents-2\"" ++
  " xmlns:cbc=\"urn:oasis:names:specification:ubl:schema:xsd:CommonBasicComponents-2\""

def ublXml (d : EinvoiceData) : Except (List String) String := do
  validate d
  .ok (prolog ++ element "Invoice" ublNamespaces (
    element "cbc:CustomizationID" "" "urn:cen.eu:en16931:2017" ++
    element "cbc:ID" "" (esc d.number) ++
    element "cbc:IssueDate" "" d.date.display ++
    element "cbc:InvoiceTypeCode" "" "380" ++
    element "cbc:DocumentCurrencyCode" "" (esc d.currency) ++
    ublParty "cac:AccountingSupplierParty" d.seller ++
    ublParty "cac:AccountingCustomerParty" d.buyer ++
    element "cac:PaymentMeans" ""
      (element "cbc:PaymentMeansCode" "" (esc (d.paymentMeansCode.getD "30"))) ++
    String.join (d.lines.zipIdx.map fun r => ublLine dec d.currency r.1 r.2) ++
    element "cac:TaxTotal" "" (element "cbc:TaxAmount" (currencyId d.currency) "0") ++
    element "cac:LegalMonetaryTotal" "" (
      element "cbc:LineExtensionAmount" (currencyId d.currency) (number dec d.totalNet) ++
      element "cbc:TaxExclusiveAmount" (currencyId d.currency) (number dec d.totalNet) ++
      element "cbc:PayableAmount" (currencyId d.currency) (number dec d.totalNet))))

end

end OpenAccounting.Einvoice
