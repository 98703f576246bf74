import Deobfuscation.Batch
import Deobfuscation.Bindings
import Deobfuscation.ClassFile.Basic
import Deobfuscation.ClassFile.Constant
import Deobfuscation.ClassFile.Length
import Deobfuscation.ClassFile.Pool
import Deobfuscation.ClassFile.Reader
import Deobfuscation.ClassFile.Texts
import Deobfuscation.ClassFile.Writer
import Deobfuscation.Collision
import Deobfuscation.CommandLine
import Deobfuscation.Descriptor
import Deobfuscation.Failure
import Deobfuscation.FileTree
import Deobfuscation.Hierarchy
import Deobfuscation.Main
import Deobfuscation.Mapping.Basic
import Deobfuscation.Mapping.Dialect
import Deobfuscation.Mapping.Fault
import Deobfuscation.Mapping.Line
import Deobfuscation.Mapping.Proguard
import Deobfuscation.Mapping.Proguard.Line
import Deobfuscation.Mapping.Srg
import Deobfuscation.Notice
import Deobfuscation.Path
import Deobfuscation.Proofs.AddedConstants
import Deobfuscation.Proofs.AncestorSearch
import Deobfuscation.Proofs.BatchRuns
import Deobfuscation.Proofs.ClassNames
import Deobfuscation.Proofs.ClassReading
import Deobfuscation.Proofs.ClassRenaming
import Deobfuscation.Proofs.CollisionMoves
import Deobfuscation.Proofs.CollisionStability
import Deobfuscation.Proofs.CollisionTables
import Deobfuscation.Proofs.ConstantRenaming
import Deobfuscation.Proofs.Cutting
import Deobfuscation.Proofs.DeclarationRenaming
import Deobfuscation.Proofs.DialectAgreement
import Deobfuscation.Proofs.EditSteps
import Deobfuscation.Proofs.FreeNames
import Deobfuscation.Proofs.GenericSignature
import Deobfuscation.Proofs.InternTables
import Deobfuscation.Proofs.LegibleConstants
import Deobfuscation.Proofs.LineForms
import Deobfuscation.Proofs.MappingInTurn
import Deobfuscation.Proofs.MemberCollisions
import Deobfuscation.Proofs.MemberLinking
import Deobfuscation.Proofs.MethodKeys
import Deobfuscation.Proofs.NameReplacement
import Deobfuscation.Proofs.NameSites
import Deobfuscation.Proofs.Normalising
import Deobfuscation.Proofs.OutOfRoom
import Deobfuscation.Proofs.OutputPaths
import Deobfuscation.Proofs.OverrideKeeping
import Deobfuscation.Proofs.PairFiling
import Deobfuscation.Proofs.PoolGrowth
import Deobfuscation.Proofs.PoolInvariant
import Deobfuscation.Proofs.PoolPasses
import Deobfuscation.Proofs.PoolReading
import Deobfuscation.Proofs.PoolRoom
import Deobfuscation.Proofs.ProguardBlocks
import Deobfuscation.Proofs.ProguardLines
import Deobfuscation.Proofs.ProguardReading
import Deobfuscation.Proofs.Readers
import Deobfuscation.Proofs.Reloading
import Deobfuscation.Proofs.RenamedHierarchy
import Deobfuscation.Proofs.RenamingFrame
import Deobfuscation.Proofs.ResolutionOrder
import Deobfuscation.Proofs.Runs
import Deobfuscation.Proofs.SharedPairs
import Deobfuscation.Proofs.SharedReferences
import Deobfuscation.Proofs.SharedTexts
import Deobfuscation.Proofs.SourceTypes
import Deobfuscation.Proofs.Spelling
import Deobfuscation.Proofs.SrgReading
import Deobfuscation.Proofs.TableOrder
import Deobfuscation.Proofs.TableUses
import Deobfuscation.Proofs.TextRoundTrip
import Deobfuscation.Proofs.Untouched
import Deobfuscation.Proofs.WrittenLengths
import Deobfuscation.Proofs.WrittenTexts
import Deobfuscation.Renaming.Class
import Deobfuscation.Renaming.Constants
import Deobfuscation.Renaming.Editing
import Deobfuscation.Renaming.Renamer
import Deobfuscation.Session
import Deobfuscation.Signature
import Deobfuscation.Table
import Deobfuscation.Text.Cut
import Deobfuscation.Text.Hidden
import Deobfuscation.Text.ModifiedUtf8
import Deobfuscation.Text.Quoted
import Deobfuscation.Text.Ranges
import Deobfuscation.Text.Utf8
