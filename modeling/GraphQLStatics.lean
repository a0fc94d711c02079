import GraphQLStatics.Files.Tree
import GraphQLStatics.Interchange.Forms
import GraphQLStatics.Main
import GraphQLStatics.Proofs.ByteScan
import GraphQLStatics.Proofs.ConditionReports
import GraphQLStatics.Proofs.DeclarationReports
import GraphQLStatics.Proofs.DirectiveReports
import GraphQLStatics.Proofs.FieldReports
import GraphQLStatics.Proofs.Inertness
import GraphQLStatics.Proofs.Inlining
import GraphQLStatics.Proofs.MixedTexts
import GraphQLStatics.Proofs.PoolAccounting
import GraphQLStatics.Proofs.PossibleTypes
import GraphQLStatics.Proofs.Reordering
import GraphQLStatics.Proofs.ReportVerdict
import GraphQLStatics.Proofs.RunPositions
import GraphQLStatics.Proofs.SearchInvariant
import GraphQLStatics.Proofs.TypeOrder
import GraphQLStatics.Proofs.TypeTexts
import GraphQLStatics.Proofs.UniformTexts
import GraphQLStatics.Proofs.UnnamedTexts
import GraphQLStatics.Proofs.VariableNames
import GraphQLStatics.Proofs.VariableSites
