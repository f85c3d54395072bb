import MailBlocks.Text.Blank
import MailBlocks.Text.Search
import MailBlocks.Text.Quoted
import MailBlocks.Number.Shortest
import MailBlocks.Keyed
import MailBlocks.Digest
import MailBlocks.Json.Decoder
import MailBlocks.MergeField
import MailBlocks.Markup.Escape
import MailBlocks.Markup.Url
import MailBlocks.Markup.StyleValue
import MailBlocks.Markup.Token
import MailBlocks.Attribute.Style
import MailBlocks.Offer.Additional
import MailBlocks.Block.Content
import MailBlocks.Component
import MailBlocks.Document
import MailBlocks.Settings
import MailBlocks.Version
import MailBlocks.Project
import MailBlocks.Lint
import MailBlocks.Email.Render
import MailBlocks.Compile
import MailBlocks.Preview
import MailBlocks.CommandLine
import MailBlocks.Main
import MailBlocks.Proofs.FieldGrammar
import MailBlocks.Proofs.LineBreaks
import MailBlocks.Proofs.Reference
import MailBlocks.Proofs.StyleText
import MailBlocks.Proofs.AuthoredText
import MailBlocks.Proofs.TagReader
import MailBlocks.Proofs.CleanEmail
import MailBlocks.Proofs.Skeleton
import MailBlocks.Proofs.Addresses
import MailBlocks.Proofs.AddressSearch
import MailBlocks.Proofs.WrittenNumbers
import MailBlocks.Proofs.CompactText
import MailBlocks.Proofs.Tables
import MailBlocks.Proofs.SettledBlocks
import MailBlocks.Proofs.BagRoundTrip
import MailBlocks.Proofs.EngineView
import MailBlocks.Proofs.Nesting
import MailBlocks.Proofs.Sight
import MailBlocks.Proofs.SeenButtons
import MailBlocks.Proofs.SeenRows
import MailBlocks.Proofs.NestedEmail
import MailBlocks.Proofs.SeenEmail
import MailBlocks.Proofs.BracketedText
import MailBlocks.Proofs.IndentedText
import MailBlocks.Proofs.StoredProjects
import MailBlocks.Proofs.OfferIdentities
import MailBlocks.Proofs.PreviewRuns
import MailBlocks.Proofs.OldKeys
import MailBlocks.Proofs.VersionOrder
import MailBlocks.Proofs.NewKeys
import MailBlocks.Proofs.BlockIdentities
import MailBlocks.Proofs.Reports
import MailBlocks.Proofs.CompileGate
import MailBlocks.Proofs.StoredOffers
import MailBlocks.Proofs.Recoveries
import MailBlocks.Proofs.CanonicalText
import MailBlocks.Proofs.Fingerprints
import MailBlocks.Proofs.FieldGaps
import MailBlocks.Proofs.LeftoverBraces
import MailBlocks.Proofs.AlikeComponents
import MailBlocks.Proofs.AddressedOffers
import MailBlocks.Proofs.EditedOffers
import MailBlocks.Proofs.PrintedAnswers
import MailBlocks.Proofs.CommandAgreement
import MailBlocks.Proofs.DefaultAttributes
import MailBlocks.Proofs.EscapedText
import MailBlocks.Proofs.ExhaustiveScan
import MailBlocks.Proofs.ConfinedStyles
import MailBlocks.Proofs.SchemaPrecedence
import MailBlocks.Proofs.SpelledLexemes
import MailBlocks.Proofs.SpelledValues
import MailBlocks.Proofs.StoredLists
import MailBlocks.Proofs.KeyOrder
import MailBlocks.Proofs.DividerLengths
import MailBlocks.Proofs.RelatedValues
import MailBlocks.Proofs.AuthoredOffers
import MailBlocks.Proofs.IssuedIdentities
import MailBlocks.Proofs.CommutingEdits
import MailBlocks.Proofs.RoundedNumbers
import MailBlocks.Proofs.Geometry
import MailBlocks.Proofs.ValueForms
import MailBlocks.Proofs.BareArrays
