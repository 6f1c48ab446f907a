import InferenceDriver.Thinking.Agree
import InferenceDriver.Slots.Engine
import InferenceDriver.Slots.Recency
import InferenceDriver.Tokens.Access
import InferenceDriver.Tokens.Tighten
import InferenceDriver.Tokens.Revoke
import InferenceDriver.Tokens.File
import InferenceDriver.OpenAi.Fold
import InferenceDriver.OpenAi.Generate
import InferenceDriver.OpenAi.Answer
import InferenceDriver.Gemini.Stops
import InferenceDriver.Gemini.Agree
import InferenceDriver.Gemini.History
import InferenceDriver.Gemini.Turns
import InferenceDriver.Gemini.Bounded
import InferenceDriver.Gemini.Jobs
import InferenceDriver.Config.Latest
import InferenceDriver.Files.Private
import InferenceDriver.Failures.Tools
import InferenceDriver.Catalogue.Listing
import InferenceDriver.Catalogue.Odd
import InferenceDriver.Tokens.Epochs
import InferenceDriver.Tokens.Mint
import InferenceDriver.Disconnect.Serve
import InferenceDriver.Cli.Paths
import InferenceDriver.OpenAi.Order
import InferenceDriver.OpenAi.Embed
import InferenceDriver.OpenAi.Scale
import InferenceDriver.OpenAi.Clip
import InferenceDriver.OpenAi.Stall
import InferenceDriver.OpenAi.Reask
import InferenceDriver.OpenAi.Calls
import InferenceDriver.OpenAi.Raw
import InferenceDriver.Http.Route
import InferenceDriver.Strata.Stops
import InferenceDriver.SystemOne.Decide
import InferenceDriver.Routes.BodyLimit
import InferenceDriver.Images.Messages
import InferenceDriver.Catalogue.Saved
import InferenceDriver.Http.Cached
import InferenceDriver.OpenAi.Offered
import InferenceDriver.OpenAi.Warned
import InferenceDriver.Cli.Dropped
import InferenceDriver.Thinking.Off
import InferenceDriver.Routes.Sse
import InferenceDriver.Config.Secret
import InferenceDriver.Catalogue.Refresh
