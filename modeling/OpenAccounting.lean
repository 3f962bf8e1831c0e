import OpenAccounting.Auth.RateLimit
import OpenAccounting.Auth.SessionTimeout
import OpenAccounting.Domain.EcbRates
import OpenAccounting.Reports.CashFlow
import OpenAccounting.System.AccountNames
import OpenAccounting.System.AgingReport
import OpenAccounting.System.AmortizationCalendar
import OpenAccounting.System.AmortizationOnce
import OpenAccounting.System.ApiTokens
import OpenAccounting.System.AppendOnly
import OpenAccounting.System.AuditBackfill
import OpenAccounting.System.AutomationBudget
import OpenAccounting.System.BankFeedSync
import OpenAccounting.System.BatchImport
import OpenAccounting.System.BillPanics
import OpenAccounting.System.CamtSigns
import OpenAccounting.System.CashBasisFooter
import OpenAccounting.System.CategoryCaps
import OpenAccounting.System.ClaimEntry
import OpenAccounting.System.ClaimPayouts
import OpenAccounting.System.CloseWatermark
import OpenAccounting.System.CorrectedEntries
import OpenAccounting.System.DatevRows
import OpenAccounting.System.Depreciation
import OpenAccounting.System.Disposals
import OpenAccounting.System.DoubleEntry
import OpenAccounting.System.EinvoiceTexts
import OpenAccounting.System.EstimateConversions
import OpenAccounting.System.FifoMatch
import OpenAccounting.System.ForeignJournals
import OpenAccounting.System.FxRevaluations
import OpenAccounting.System.GaplessNumbers
import OpenAccounting.System.HledgerRoundTrip
import OpenAccounting.System.ImportedEntries
import OpenAccounting.System.InvoiceSchedule
import OpenAccounting.System.LikePatterns
import OpenAccounting.System.LostJobs
import OpenAccounting.System.MakerChecker
import OpenAccounting.System.Mt940Entries
import OpenAccounting.System.Mt940Movements
import OpenAccounting.System.OfxDialects
import OpenAccounting.System.OpeningBalances
import OpenAccounting.System.PayeeNames
import OpenAccounting.System.PeriodLock
import OpenAccounting.System.QifRecords
import OpenAccounting.System.RateLookup
import OpenAccounting.System.RecurrenceDates
import OpenAccounting.System.Recurring
import OpenAccounting.System.RecurringLimits
import OpenAccounting.System.Reimport
import OpenAccounting.System.Reminders
import OpenAccounting.System.Replays
import OpenAccounting.System.RuleApplication
import OpenAccounting.System.SessionRotation
import OpenAccounting.System.SingleUse
import OpenAccounting.System.StatementChain
import OpenAccounting.System.StockValuation
import OpenAccounting.System.StoredAmounts
import OpenAccounting.System.TaxReport
import OpenAccounting.System.TransactionListing
import OpenAccounting.System.TransactionNumbers
import OpenAccounting.System.TrialBalanceColumns
import OpenAccounting.System.WebhookHosts
import OpenAccounting.System.WizardCsv
import OpenAccounting.System.WritePaths
import OpenAccounting.System.XbrlInstances
import OpenAccounting.System.YearEndClose
import OpenAccounting.Workers.Backup
